import Watershed.Proofs.Mentions

/-!
# What an execution leaves of the rivers

The state of a river has four fields, and each of them is set by statements of its own: what the
river itself brings by `river` and `combine`, what comes into it by `flow`, its dam and its level by
`dam`. A field of a river that no statement of an execution sets is after it what it was before,
however the execution ends. A river that is merely read may be mentioned for the first time, and
then its fields have their defaults.
-/

set_option autoImplicit false

namespace Watershed

/-! ## Fields -/

/-- The fields of the state of a river. -/
inductive River.Field where
  | own
  | incoming
  | factor
  | level

/-- The value of a field. -/
def River.field (r : River) : Field → Float
  | .own => r.own
  | .incoming => r.incoming
  | .factor => r.factor
  | .level => r.level

/-- The rivers of which a statement sets a field. -/
def Statement.targets : Statement → River.Field → List String
  | river name _ _, .own => [name]
  | combine name _ _, .own => [name]
  | flow _ target _, .incoming => [target]
  | dam name _ _, .factor => [name]
  | dam name _ _, .level => [name]
  | _, _ => []

/-- Setting a factor that is accepted changes nothing but the factor. -/
theorem River.eq_of_setFactor {r r' : River} {factor : Float} {name : String} {line : Nat}
    (h : r.setFactor factor name line = .ok r') : r' = { r with factor := factor } := by
  unfold setFactor at h
  split at h
  · cases h
    rfl
  · cases h

namespace Registry

/-- A river that is found has been mentioned. -/
theorem mem_names_of_get? {g : Registry} {name : String} {r : River} (h : g.get? name = some r) :
    name ∈ g.names := by
  by_cases hknown : name ∈ g.names
  · exact hknown
  · rw [get?_of_not_mem_names hknown] at h
    cases h

/-- Putting a river changes a field of no other river, and not its own if the field is the same. -/
theorem field_put {g : Registry} {name x : String} {r : River} {f : River.Field}
    (h : x = name → r.field f = (g.state name).field f) :
    ((g.put name r).state x).field f = (g.state x).field f := by
  rw [state_put]
  split
  · rename_i hname
    rw [h hname, hname]
  · rfl

/-- An effect changes no field that its statement does not set. -/
theorem field_of_effect {d : Day} {s : Statement} {g : Registry} {fault : Option Fault}
    (heffect : RiverEffect d s g fault) {x : String} {f : River.Field} (hx : x ∉ s.targets f) :
    (g.state x).field f = (d.rivers.state x).field f := by
  cases heffect with
  | untouched => rfl
  | unset => rfl
  | set name rate line flow =>
    refine field_put fun hname => ?_
    cases f with
    | own => exact absurd (List.mem_singleton.2 hname) hx
    | _ => rfl
  | reported name => rw [state_mention]
  | combined name sources line =>
    rw [← d.rivers.state_mentionAll sources x]
    refine field_put fun hname => ?_
    cases f with
    | own => exact absurd (List.mem_singleton.2 hname) hx
    | _ => rfl
  | passedOn source target line =>
    rw [← d.rivers.state_mention source x]
    refine field_put fun hname => ?_
    cases f with
    | incoming => exact absurd (List.mem_singleton.2 hname) hx
    | _ => rfl
  | undammed name => rw [state_mention]
  | dammed name mode line haccepted =>
    refine field_put fun hname => ?_
    rw [River.eq_of_setFactor haccepted]
    cases f with
    | own => rfl
    | incoming => rfl
    | factor => exact absurd (List.mem_singleton.2 hname) hx
    | level => exact absurd (List.mem_singleton.2 hname) hx

end Registry

namespace Statement

/-- No execution changes a field that none of its statements sets. -/
theorem field_execAll {ss : List Statement} {x : String} {f : River.Field}
    (hx : ∀ s ∈ simplesAll ss, x ∉ s.targets f) (d : Day) :
    ((execAll ss d).day.rivers.state x).field f = (d.rivers.state x).field f := by
  refine (rivers_exec_induction_of (P := fun s => x ∉ s.targets f)
    (R := fun g g' => (g'.state x).field f = (g.state x).field f) ?_ ?_ ?_).2 ss hx d
  · intro g
    rfl
  · intro g g' g'' hfirst hsecond
    exact hsecond.trans hfirst
  · intro d s g fault hs heffect
    exact Registry.field_of_effect heffect hs

/-- A known river stays known. -/
theorem mem_names_execAll {x : String} {d : Day} (hx : x ∈ d.rivers.names) (ss : List Statement) :
    x ∈ (execAll ss d).day.rivers.names := by
  obtain ⟨front, -, hnames, -⟩ := mentions_exec.2 ss d
  rw [hnames]
  exact mem_addNames.2 (.inl hx)

/-- An execution that mentions no river leaves all rivers as they are. -/
theorem rivers_execAll_of_riversOf_eq_nil {ss : List Statement} (hnone : riversOf ss = [])
    (d : Day) : (execAll ss d).day.rivers = d.rivers := by
  have hmentioned : ∀ s ∈ simplesAll ss, s.mentioned = [] := List.flatMap_eq_nil_iff.1 hnone
  refine (rivers_exec_induction_of (P := fun s => s.mentioned = [])
    (R := fun g g' => g' = g) ?_ ?_ ?_).2 ss hmentioned d
  · intro g
    rfl
  · intro g g' g'' hfirst hsecond
    exact hsecond.trans hfirst
  · intro d s g fault hs heffect
    cases heffect with
    | untouched => rfl
    | unset => rfl
    | combined name sources => exact absurd hs (List.append_ne_nil_of_right_ne_nil _ (by simp))
    | _ => cases hs

/-- Whether it succeeds or fails midway, an execution changes only those fields of rivers that its
statements set, at whatever depth they stand. A field that none of them sets keeps its value if the
river was known, and has its default if the river came to be known on the way. Executions without
statements on rivers, which evaluate, show and declare, change no river at all. -/
theorem fields_framed (d : Day) (ss : List Statement) :
    (∀ (x : String) (f : River.Field), (∀ s ∈ simplesAll ss, x ∉ s.targets f) →
      (∀ r, d.rivers.get? x = some r →
        ∃ r', (execAll ss d).day.rivers.get? x = some r' ∧ r'.field f = r.field f) ∧
      (d.rivers.get? x = none → ∀ r', (execAll ss d).day.rivers.get? x = some r' →
        r'.field f = (⟨0.0, 0.0, 1.0, 0.0⟩ : River).field f)) ∧
    ((∀ s ∈ simplesAll ss, (∃ e line, s = expr e line) ∨ (∃ e line, s = print e line) ∨
        ∃ name initial line, s = var name initial line) →
      (execAll ss d).day.rivers = d.rivers) := by
  constructor
  · intro x f hx
    have hfield := field_execAll hx d
    constructor
    · intro r hr
      have hknown := mem_names_execAll (Registry.mem_names_of_get? hr) ss
      refine ⟨_, Registry.get?_of_mem_names hknown, ?_⟩
      rw [hfield, Registry.state, hr]
      rfl
    · intro hnone r' hr'
      rw [Registry.state, Registry.state, hnone, hr'] at hfield
      exact hfield
  · intro hplain
    refine rivers_execAll_of_riversOf_eq_nil (List.flatMap_eq_nil_iff.2 fun s hs => ?_) d
    rcases hplain s hs with ⟨e, line, rfl⟩ | ⟨e, line, rfl⟩ | ⟨name, initial, line, rfl⟩ <;> rfl

/-- An execution that fails midway: `A` passes its flow on to itself and is read by a `combine` and
by the dam of `B`, and `C` is first mentioned as a source. Showing `A` changes nothing. -/
theorem fields_framed_midway :
    let d := Day.start (Registry.empty.put "A" { level := 4.0 }) 2.0 1 Sink.unlimited
    let ss := [flow "A" "A" 1,
      block [combine "B" ["A", "C"] 2, dam "B" (.adjusted (.name "A" 3)) 3,
        print (.name "missing" 4) 4] 2]
    let shown := [var "x" (some (.name "A" 1)) 1, block [print (.name "x" 2) 2] 2]
    (execAll ss d).fault = some (.undefinedName "missing" 4) ∧
      (∃ r, (execAll ss d).day.rivers.get? "A" = some r ∧ r.own = 0.0 ∧ r.level = 4.0) ∧
      (∃ r, (execAll ss d).day.rivers.get? "C" = some r ∧ r.factor = 1.0) ∧
      (execAll shown d).day.rivers = d.rivers := by
  intro d ss shown
  have hfault : (execAll ss d).fault = some (.undefinedName "missing" 4) := by decide +kernel
  have hknown : d.rivers.get? "A" = some { level := 4.0 } := by decide +kernel
  have hnew : d.rivers.get? "C" = none := by decide +kernel
  obtain ⟨hframe, -⟩ := fields_framed d ss
  refine ⟨hfault, ?_, ?_, ?_⟩
  · obtain ⟨r, hr, hown⟩ := (hframe "A" .own (by decide)).1 _ hknown
    obtain ⟨r', hr', hlevel⟩ := (hframe "A" .level (by decide)).1 _ hknown
    obtain rfl := Option.some.inj (hr.symm.trans hr')
    exact ⟨r, hr, hown, hlevel⟩
  · have hmentioned : (execAll ss d).day.rivers.get? "C" =
        some ((execAll ss d).day.rivers.state "C") := by decide +kernel
    exact ⟨_, hmentioned, (hframe "C" .factor (by decide)).2 hnew _ hmentioned⟩
  · refine (fields_framed d shown).2 fun s hs => ?_
    rcases List.mem_cons.1 hs with rfl | hs
    · exact .inr (.inr ⟨_, _, _, rfl⟩)
    · obtain rfl := List.mem_singleton.1 hs
      exact .inr (.inl ⟨_, _, rfl⟩)

end Statement

end Watershed
