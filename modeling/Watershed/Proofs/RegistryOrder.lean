import Watershed.Proofs.Days
import Watershed.Proofs.Mentions

/-!
# The order of the rivers

The rivers of a registry stand in the order of their first mention. A day that succeeds brings the
names to those known before and those of the program, in the order of the text and without
repetitions; a day that fails stops somewhere on the way there. So the names are only ever added to
at the end, over as many days as there may be.
-/

set_option autoImplicit false

namespace Watershed

/-! ## Names without repetitions -/

/-- Dropping repetitions behind one more name adds this name. -/
theorem eraseDups_concat (names : List String) (name : String) :
    (names ++ [name]).eraseDups = addName names.eraseDups name := by
  have hnew : [name].removeAll names = if name ∈ names then [] else [name] := by
    by_cases h : name ∈ names <;> simp [List.removeAll, h]
  rw [List.eraseDups_append, hnew, addName]
  by_cases h : name ∈ names
  · simp [h]
  · simp [h, List.eraseDups_cons]

/-- Adding names to a list without its repetitions drops the repetitions of the whole. -/
theorem addNames_eraseDups (known names : List String) :
    addNames known.eraseDups names = (known ++ names).eraseDups := by
  induction names generalizing known with
  | nil => simp [addNames]
  | cons name names ih =>
    have hfirst : addNames known.eraseDups (name :: names) =
        addNames (addName known.eraseDups name) names := rfl
    rw [hfirst, ← eraseDups_concat, ih, List.append_assoc, List.singleton_append]

/-- A list without repetitions loses nothing when they are dropped. -/
theorem eraseDups_of_nodup {names : List String} (h : names.Nodup) : names.eraseDups = names := by
  induction names with
  | nil => rfl
  | cons name names ih =>
    have hnew := List.nodup_cons.1 h
    have hfilter : names.filter (fun n => !n == name) = names := by
      rw [List.filter_eq_self]
      intro n hn
      have hne : n ≠ name := fun heq => hnew.1 (heq ▸ hn)
      simp [hne]
    rw [List.eraseDups_cons, hfilter, ih hnew.2]

/-- Adding names to a list without repetitions drops the repetitions of the whole. -/
theorem addNames_eq_eraseDups {known : List String} (h : known.Nodup) (names : List String) :
    addNames known names = (known ++ names).eraseDups := by
  have hknown := addNames_eraseDups known names
  rwa [eraseDups_of_nodup h] at hknown

/-! ## Days in a row -/

/-- A planned day mentions the rivers of its program in order. -/
theorem DayPlan.mentions_outcome (p : DayPlan) (g : Registry) :
    (p.outcome g).Mentions g.names (riversOf p.program) := by
  have hday := Statement.mentions_exec.2 p.program (Day.start g p.rainfall p.number p.sink)
  have hstart : (Day.start g p.rainfall p.number p.sink).rivers.names = g.names :=
    g.names_startDay
  rwa [hstart] at hday

/-- A planned day keeps the names known before it in their places. -/
theorem DayPlan.names_prefix (p : DayPlan) (g : Registry) :
    g.names <+: (p.outcome g).day.rivers.names := by
  obtain ⟨front, -, hnames, -⟩ := p.mentions_outcome g
  rw [hnames]
  exact prefix_addNames g.names front

/-- Planned days in a row keep the names known before them in their places. -/
theorem Registry.names_prefix_afterDays (g : Registry) (plans : List DayPlan) :
    g.names <+: (g.afterDays plans).names := by
  induction plans generalizing g with
  | nil => exact List.prefix_refl g.names
  | cons p plans ih => exact (p.names_prefix g).trans (ih (p.outcome g).day.rivers)

/-- A run keeps the names known before it in their places. -/
theorem Simulation.names_prefix_run (s : Simulation) (program : Program) (k : Sink) :
    s.rivers.names <+: (s.run program k).rivers.names := by
  unfold Simulation.run
  apply rivers_runDays_induction (R := fun g g' => g.names <+: g'.names)
  · exact fun g => List.prefix_refl g.names
  · exact fun _ _ _ hfirst hsecond => hfirst.trans hsecond
  · exact DayPlan.names_prefix

/-! ## The order of first mention -/

/-- A day that succeeds leaves the names known before and those of its program, without later
repetitions; one that fails leaves a beginning of that list which holds all names known before.
Over days in a row, of whatever programs and however they end, and over the days of a simulation,
names are only added at the end, and each of them once. Statements that show, declare or evaluate
add none. -/
theorem names_in_order_of_mention :
    (∀ (g : Registry) (p : DayPlan),
      ((p.outcome g).fault = none →
        (p.outcome g).day.rivers.names = (g.names ++ riversOf p.program).eraseDups) ∧
      (p.outcome g).day.rivers.names <+: (g.names ++ riversOf p.program).eraseDups ∧
      g.names <+: (p.outcome g).day.rivers.names) ∧
    (∀ (g : Registry) (plans : List DayPlan),
      g.names <+: (g.afterDays plans).names ∧ (g.afterDays plans).names.Nodup) ∧
    (∀ (s : Simulation) (program : Program) (k : Sink),
      s.rivers.names <+: (s.run program k).rivers.names ∧ (s.run program k).rivers.names.Nodup) ∧
    ∀ (d : Day) (e : Expr) (name : String) (initial : Option Expr) (line : Nat),
      ((Statement.print e line).exec d).day.rivers.names = d.rivers.names ∧
      ((Statement.var name initial line).exec d).day.rivers.names = d.rivers.names ∧
      ((Statement.expr e line).exec d).day.rivers.names = d.rivers.names := by
  refine ⟨?_, ?_, ?_, ?_⟩
  · intro g p
    obtain ⟨front, hfront, hnames, hall⟩ := p.mentions_outcome g
    have hnodup : g.names.Nodup := g.nodup
    rw [← addNames_eq_eraseDups hnodup]
    refine ⟨?_, ?_, p.names_prefix g⟩
    · intro hfault
      rw [hnames, hall hfault]
    · rw [hnames]
      exact addNames_prefix_addNames g.names hfront
  · intro g plans
    exact ⟨g.names_prefix_afterDays plans, (g.afterDays plans).nodup⟩
  · intro s program k
    exact ⟨s.names_prefix_run program k, (s.run program k).rivers.nodup⟩
  · intro d e name initial line
    have hadds_none {s : Statement} (hblock : s.isBlock = false) (hnone : s.mentioned = []) :
        (s.exec d).day.rivers.names = d.rivers.names := by
      obtain ⟨front, hfront, hnames, -⟩ := Statement.mentions_exec_simple hblock d
      rw [hnone, List.prefix_nil] at hfront
      rw [hnames, hfront]
      rfl
    exact ⟨hadds_none rfl rfl, hadds_none rfl rfl, hadds_none rfl rfl⟩

/-- A registry that knows `B` and a program with a block, a river that is combined and a dam: the
new names come behind `B` in the order of the text, the sources of a combination before its river.
-/
theorem names_in_order_of_mention_nested :
    let g := Registry.empty.mention "B"
    let program : Program :=
      [.flow "C" "B" 1, .block [.combine "A" ["D", "C"] 2, .dam "E" .closed 3] 2, .output "A" 4]
    let p : DayPlan := ⟨program, 1.0, 1, Sink.unlimited⟩
    (p.outcome g).fault = none ∧ (p.outcome g).day.rivers.names = ["B", "C", "D", "A", "E"] := by
  intro g program p
  have hfault : (p.outcome g).fault = none := by decide +kernel
  have hnames := (names_in_order_of_mention.1 g p).1 hfault
  refine ⟨hfault, hnames.trans ?_⟩
  decide +kernel

end Watershed
