import Watershed.Program
import Watershed.Proofs.Reads

/-!
# What a day takes over from the days before

Everything but the levels is reset when a day begins, but rivers stay known, and the name of a
known river means its flow. So registries with the same levels make for the same day if they know
the same rivers among the names that are read before the program has mentioned them. Knowing a
river or not can always be told apart.
-/

set_option autoImplicit false

namespace Watershed

/-- A program that tells whether a river of a given name is known: negating the name is possible
if it means a flow, and not if it means the variable. -/
def probe (name : String) : Program :=
  [.var name none 1, .expr (.unary .negate (.name name 2) 2) 2]

/-- The probe of a name succeeds exactly if the river is known. -/
theorem fault_probe {g : Registry} {name : String} (rainfall : Float) (number : Nat) :
    (Day.freeOutcome (probe name) rainfall number g).fault = none ↔ name ∈ g.names := by
  have hnames : g.startDay.names = g.names := g.names_startDay
  let env := (Day.start g rainfall number Sink.unlimited).environment.define name .nil
  have hexec : Day.freeOutcome (probe name) rainfall number g =
      (Day.given ⟨rainfall, env, g.startDay, Sink.unlimited⟩
        (do UnaryOp.negate.apply (← resolve g.startDay env name 2) 2)
        fun _ => Day.proceed ⟨rainfall, env, g.startDay, Sink.unlimited⟩).andThen Day.proceed := rfl
  rw [hexec]
  by_cases hknown : name ∈ g.names
  · rw [resolve, Registry.get?_of_mem_names (hnames ▸ hknown)]
    exact ⟨fun _ => hknown, fun _ => rfl⟩
  · have hnil : env.lookup name = some .nil := by
      rw [Environment.lookup_define, if_pos rfl]
    rw [resolve, Registry.get?_of_not_mem_names (hnames ▸ hknown), Environment.get, hnil]
    refine ⟨fun h => ?_, fun h => absurd h hknown⟩
    cases h

/-- Registries with the same levels make for the same fault and the same output, if they know the
same rivers among the names that are read before the program has mentioned them. For every name
that only one of them knows there is a program that tells them apart. -/
theorem freeOutcome_eq_of_level_eq {g g' : Registry}
    (hlevel : ∀ x, (g.state x).level = (g'.state x).level) (rainfall : Float) (number : Nat) :
    (∀ program : Program,
      (∀ x ∈ Statement.unmentionedReadsAll [] program
          (Day.start g rainfall number Sink.unlimited), x ∈ g.names ↔ x ∈ g'.names) →
      (Day.freeOutcome program rainfall number g).fault =
        (Day.freeOutcome program rainfall number g').fault ∧
      (Day.freeOutcome program rainfall number g).day.sink.taken =
        (Day.freeOutcome program rainfall number g').day.sink.taken) ∧
    ∀ x, ¬(x ∈ g.names ↔ x ∈ g'.names) →
      (Day.freeOutcome (probe x) rainfall number g).fault ≠
        (Day.freeOutcome (probe x) rainfall number g').fault := by
  constructor
  · intro program hknown
    let settled (x : String) : Prop := x ∈ g.names ↔ x ∈ g'.names
    have hstart : (Day.start g rainfall number Sink.unlimited).Matches
        (fun x => settled x ∨ x ∈ []) (Day.start g' rainfall number Sink.unlimited) :=
      Day.matches_start hlevel (fun x hx => hx.resolve_right List.not_mem_nil) rainfall number _
    obtain ⟨hfault, hdays⟩ := matches_exec.2 program [] _ _ hstart hknown
    exact ⟨hfault, congrArg Sink.taken hdays.sink⟩
  · intro x hx hfault
    apply hx
    rw [← fault_probe rainfall number, hfault, fault_probe]

/-- Two registries agree in the level of `A`, and only the second knows `B`. A program that reads
`B` behind an output of it has the same output on both; the probe of `B` tells them apart. -/
theorem freeOutcome_eq_of_level_eq_forgotten :
    let g := Registry.empty.put "A" { own := 3.0, factor := 0.5, level := 5.0 }
    let g' := (Registry.empty.mention "B").put "A" { level := 5.0 }
    let program : Program :=
      [.dam "A" (.adjusted (.binary .div (.name "damLevel" 1) (.literal (.number 10.0) 1) 1)) 1,
        .print (.name "A" 2) 2, .output "B" 3, .print (.name "B" 4) 4]
    (Day.freeOutcome program 1.0 2 g).day.sink.taken =
      (Day.freeOutcome program 1.0 2 g').day.sink.taken ∧
    (Day.freeOutcome (probe "B") 1.0 2 g).fault ≠
      (Day.freeOutcome (probe "B") 1.0 2 g').fault := by
  intro g g' program
  have hlevel : ∀ x, (g.state x).level = (g'.state x).level := by
    intro x
    rw [Registry.state_put, Registry.state_put, Registry.state_mention]
    split <;> rfl
  have hboth := freeOutcome_eq_of_level_eq hlevel 1.0 2
  exact ⟨(hboth.1 program (by decide +kernel)).2, hboth.2 "B" (by decide)⟩

/-- Levels alone do not determine a day: whether a river is known decides whether its name has a
meaning. -/
theorem not_freeOutcome_eq_of_level_eq :
    ¬∀ (program : Program) (rainfall : Float) (number : Nat) (g g' : Registry),
      (∀ x, (g.state x).level = (g'.state x).level) →
      (Day.freeOutcome program rainfall number g).fault =
        (Day.freeOutcome program rainfall number g').fault ∧
      (Day.freeOutcome program rainfall number g).day.sink.taken =
        (Day.freeOutcome program rainfall number g').day.sink.taken := by
  intro h
  have hlevel : ∀ x,
      (Registry.empty.state x).level = ((Registry.empty.mention "X").state x).level := by
    intro x
    rw [Registry.state_mention]
  have hfault := (h [.print (.name "X" 1) 1] 1.0 2 _ _ hlevel).1
  revert hfault
  decide +kernel

end Watershed
