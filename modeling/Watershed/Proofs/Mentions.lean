import Watershed.Proofs.Effects

/-!
# The rivers an execution mentions

Mentioning rivers adds those that are new to the end of the list of names, each of them once. An
execution that succeeds mentions the rivers of its simple statements, in the order of the text; one
that fails has mentioned the first of them.
-/

set_option autoImplicit false

namespace Watershed

/-! ## Lists of names that grow at the end -/

/-- A list of names with a further name at the end, unless it is there already. -/
def addName (known : List String) (name : String) : List String :=
  if name ∈ known then known else known ++ [name]

/-- A list of names with further names at the end, each of them once. -/
def addNames (known names : List String) : List String :=
  names.foldl addName known

/-- A name that is there already is not added. -/
theorem addName_of_mem {known : List String} {name : String} (h : name ∈ known) :
    addName known name = known :=
  if_pos h

/-- Adding a name adds this name and no other. -/
theorem mem_addName {known : List String} {name n : String} :
    n ∈ addName known name ↔ n ∈ known ∨ n = name := by
  unfold addName
  split
  · rename_i h
    constructor
    · exact Or.inl
    · rintro (hn | rfl)
      · exact hn
      · exact h
  · simp

/-- Further names are added behind those added before. -/
theorem addNames_append (known xs ys : List String) :
    addNames known (xs ++ ys) = addNames (addNames known xs) ys :=
  List.foldl_append

/-- Adding names adds these names and no others. -/
theorem mem_addNames {known names : List String} {n : String} :
    n ∈ addNames known names ↔ n ∈ known ∨ n ∈ names := by
  induction names generalizing known with
  | nil => simp [addNames]
  | cons name names ih =>
    show n ∈ addNames (addName known name) names ↔ _
    rw [ih, mem_addName, List.mem_cons, or_assoc]

/-- Adding a name keeps the list as a beginning. -/
theorem prefix_addName (known : List String) (name : String) : known <+: addName known name := by
  unfold addName
  split
  · exact List.prefix_refl known
  · exact List.prefix_append known [name]

/-- Adding names keeps the list as a beginning. -/
theorem prefix_addNames (known names : List String) : known <+: addNames known names := by
  induction names generalizing known with
  | nil => exact List.prefix_refl known
  | cons name names ih => exact (prefix_addName known name).trans (ih (addName known name))

/-- Adding the first of some names gives a beginning of what adding all of them gives. -/
theorem addNames_prefix_addNames (known : List String) {front names : List String}
    (h : front <+: names) : addNames known front <+: addNames known names := by
  obtain ⟨more, rfl⟩ := h
  rw [addNames_append]
  exact prefix_addNames (addNames known front) more

/-- Names that are there already are not added. -/
theorem addNames_of_subset {known names : List String} (h : ∀ n ∈ names, n ∈ known) :
    addNames known names = known := by
  induction names with
  | nil => rfl
  | cons name names ih =>
    have hfirst : addName known name = known := addName_of_mem (h name (List.mem_cons_self ..))
    show addNames (addName known name) names = known
    rw [hfirst]
    exact ih fun n hn => h n (List.mem_cons_of_mem _ hn)

/-! ## Registries -/

namespace Registry

/-- Putting a river adds its name and no other. -/
theorem mem_names_put {g : Registry} {name n : String} {r : River} :
    n ∈ (g.put name r).names ↔ n ∈ g.names ∨ n = name := by
  rw [names_put]
  exact mem_addName

/-- Changing the state of a river adds its name. -/
theorem names_update (g : Registry) (name : String) (f : River → River) :
    (g.update name f).names = addName g.names name :=
  g.names_put name _

/-- Mentioning a river adds its name. -/
theorem names_mention (g : Registry) (name : String) :
    (g.mention name).names = addName g.names name :=
  g.names_update name id

/-- Mentioning rivers adds their names in order. -/
theorem names_mentionAll (g : Registry) (names : List String) :
    (g.mentionAll names).names = addNames g.names names := by
  induction names generalizing g with
  | nil => rfl
  | cons name names ih =>
    show ((g.mention name).mentionAll names).names = addNames (addName g.names name) names
    rw [ih, names_mention]

end Registry

/-! ## Executions -/

/-- Whether an outcome has mentioned rivers of a list, after those known before: all of them if it
is without a fault, and otherwise those of a beginning of the list. -/
def Day.Outcome.Mentions (o : Outcome) (known names : List String) : Prop :=
  ∃ front, front <+: names ∧ o.day.rivers.names = addNames known front ∧
    (o.fault = none → front = names)

/-- Two executions in a row mention the rivers of the first and then those of the second. -/
theorem Day.Outcome.Mentions.andThen {o : Outcome} {known names names' : List String}
    (h : o.Mentions known names) {next : Day → Outcome}
    (hnext : ∀ d : Day, (next d).Mentions d.rivers.names names') :
    (o.andThen next).Mentions known (names ++ names') := by
  obtain ⟨front, hfront, hnames, hall⟩ := h
  refine andThen_induction (P := fun o' => o'.Mentions known (names ++ names')) ?_ ?_
  · intro hfault
    refine ⟨front, hfront.trans (List.prefix_append names names'), hnames, ?_⟩
    intro hnone
    exact absurd hnone hfault
  · intro hfault
    obtain rfl := hall hfault
    obtain ⟨more, hmore, hnames', hall'⟩ := hnext o.day
    refine ⟨front ++ more, ?_, ?_, ?_⟩
    · exact (List.prefix_append_right_inj front).2 hmore
    · rw [hnames', hnames, addNames_append]
    · intro hnone
      rw [hall' hnone]

namespace Statement

/-- A simple statement mentions its rivers in order. -/
theorem mentions_exec_simple {s : Statement} (hblock : s.isBlock = false) (d : Day) :
    (s.exec d).Mentions d.rivers.names s.mentioned := by
  have heffect := riverEffect_exec hblock d
  unfold Day.Outcome.Mentions
  generalize (s.exec d).day.rivers = g, (s.exec d).fault = fault at heffect ⊢
  cases heffect with
  | untouched hnone fault => exact ⟨[], List.nil_prefix, rfl, fun _ => hnone.symm⟩
  | unset name rate line fault => exact ⟨[], List.nil_prefix, rfl, nofun⟩
  | set name rate line flow =>
    exact ⟨[name], List.prefix_refl _, d.rivers.names_update name _, fun _ => rfl⟩
  | reported name line fault =>
    exact ⟨[name], List.prefix_refl _, d.rivers.names_mention name, fun _ => rfl⟩
  | combined name sources line =>
    refine ⟨sources ++ [name], List.prefix_refl _, ?_, fun _ => rfl⟩
    rw [Registry.names_update, Registry.names_mentionAll, addNames_append]
    rfl
  | passedOn source target line =>
    refine ⟨[source, target], List.prefix_refl _, ?_, fun _ => rfl⟩
    rw [Registry.names_update, Registry.names_mention]
    rfl
  | undammed name e line fault =>
    exact ⟨[name], List.prefix_refl _, d.rivers.names_mention name, fun _ => rfl⟩
  | dammed name mode line _ =>
    exact ⟨[name], List.prefix_refl _, d.rivers.names_put name _, fun _ => rfl⟩

/-- An execution mentions the rivers of its simple statements, in the order of the text. -/
theorem mentions_exec :
    (∀ (s : Statement) (d : Day),
      (s.exec d).Mentions d.rivers.names (s.simples.flatMap mentioned)) ∧
    ∀ (ss : List Statement) (d : Day), (execAll ss d).Mentions d.rivers.names (riversOf ss) := by
  apply induction_lists
  case simple =>
    intro s hblock d
    rw [simples_of_isBlock_eq_false hblock, List.flatMap_singleton]
    exact mentions_exec_simple hblock d
  case block =>
    intro body line ih d
    rw [exec_block, simples]
    exact ih d.opened
  case nil =>
    intro d
    exact ⟨[], List.prefix_refl _, rfl, fun _ => rfl⟩
  case cons =>
    intro s ss ih ihs d
    rw [execAll_cons, riversOf, simplesAll, List.flatMap_append]
    exact (ih d).andThen ihs

/-- A statement that succeeds has mentioned all rivers of its simple statements. -/
theorem names_exec {s : Statement} {d : Day} (h : (s.exec d).fault = none) :
    (s.exec d).day.rivers.names = addNames d.rivers.names (s.simples.flatMap mentioned) := by
  obtain ⟨front, -, hnames, hall⟩ := mentions_exec.1 s d
  rw [hnames, hall h]

end Statement

/-- A day that succeeds has mentioned all rivers of its program. -/
theorem Day.names_freeOutcome {program : List Statement} {rainfall : Float} {number : Nat}
    {g : Registry} (h : (freeOutcome program rainfall number g).fault = none) :
    (freeOutcome program rainfall number g).day.rivers.names =
      addNames g.names (riversOf program) := by
  have hstart : (start g rainfall number Sink.unlimited).rivers.names = g.names :=
    g.names_startDay
  obtain ⟨front, -, hnames, hall⟩ :=
    Statement.mentions_exec.2 program (start g rainfall number Sink.unlimited)
  rw [← hstart, ← hall h]
  exact hnames

end Watershed
