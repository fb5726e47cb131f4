import Watershed.Proofs.RegistryOrder
import Watershed.Proofs.Scopes

/-!
# Names in scope

Whether the names of a program have a meaning can be told from its text: variables end with their
block, while rivers stay known from their first mention on. A program that is well scoped never
meets an undefined name, on whatever day, and if it evaluates all parts of its expressions, then it
cannot succeed on a first day without being well scoped. At each point of an execution the names in
scope are exactly those that are bound or known (`Day.InScope`).
-/

set_option autoImplicit false

namespace Watershed

/-! ## Well-scoped programs -/

/-- Whether an expression is free of `and` and `or`, so that all of its parts are evaluated. -/
def Expr.isStrict : Expr → Bool
  | literal _ _ => true
  | name _ _ => true
  | group inner _ => inner.isStrict
  | unary _ operand _ => operand.isStrict
  | binary _ left right _ => left.isStrict && right.isStrict
  | logical _ _ _ _ => false

namespace Statement

/-- The names that the expression of a dam may use besides those in scope. -/
def damNames : Statement → List String
  | dam name _ _ => ["inflow", "damLevel", name]
  | _ => []

/-- Whether the expressions of a statement use no names but those of variables in scope and of
rivers known. -/
def NamesIn (vars rivers : List String) (s : Statement) : Prop :=
  ∀ e ∈ s.expressions, ∀ x ∈ e.names, x ∈ vars ∨ x ∈ rivers ∨ x ∈ s.damNames

instance (vars rivers : List String) (s : Statement) :
    Decidable (s.NamesIn vars rivers) :=
  inferInstanceAs (Decidable (∀ e ∈ s.expressions, ∀ x ∈ e.names,
    x ∈ vars ∨ x ∈ rivers ∨ x ∈ s.damNames))

mutual

/-- Whether all names in a statement are in scope, given the variables and the rivers before it. -/
def isScoped (vars rivers : List String) : Statement → Bool
  | block body _ => areScoped vars rivers body
  | s => s.NamesIn vars rivers

/-- Whether all names in statements one after the other are in scope. A variable counts from the
statement after its declaration to the end of its block, and a river from the statement after its
first mention on. -/
def areScoped (vars rivers : List String) : List Statement → Bool
  | [] => true
  | s :: ss =>
    s.isScoped vars rivers &&
      areScoped (vars ++ s.declared) (rivers ++ s.simples.flatMap mentioned) ss

end

/-- A simple statement is scoped if the names in its expressions are in scope. -/
theorem isScoped_simple {s : Statement} (hblock : s.isBlock = false)
    (vars rivers : List String) :
    s.isScoped vars rivers = true ↔ s.NamesIn vars rivers := by
  cases s with
  | block => cases hblock
  | _ => simp [isScoped]

/-- Statements are scoped if the first is, and the others with what it declares and mentions. -/
theorem areScoped_cons (vars rivers : List String) (s : Statement) (ss : List Statement) :
    areScoped vars rivers (s :: ss) = true ↔ s.isScoped vars rivers = true ∧
      areScoped (vars ++ s.declared) (rivers ++ s.simples.flatMap mentioned) ss = true := by
  rw [areScoped, Bool.and_eq_true]

/-- More known rivers do no harm. -/
theorem isScoped_of_subset :
    (∀ (s : Statement) (vars rivers rivers' : List String), (∀ x ∈ rivers, x ∈ rivers') →
      s.isScoped vars rivers = true → s.isScoped vars rivers' = true) ∧
    ∀ (ss : List Statement) (vars rivers rivers' : List String),
      (∀ x ∈ rivers, x ∈ rivers') →
      areScoped vars rivers ss = true → areScoped vars rivers' ss = true := by
  apply induction_lists
  case simple =>
    intro s hblock vars rivers rivers' hsubset h
    rw [isScoped_simple hblock] at h ⊢
    intro e he x hx
    have hscope := h e he x hx
    exact hscope.imp_right (Or.imp_left (hsubset x))
  case block =>
    intro body line ih vars rivers rivers' hsubset h
    rw [isScoped] at h ⊢
    exact ih vars rivers rivers' hsubset h
  case nil =>
    intro vars rivers rivers' _ _
    rfl
  case cons =>
    intro s ss ih ihs vars rivers rivers' hsubset h
    rw [areScoped_cons] at h ⊢
    refine ⟨ih _ _ _ hsubset h.1, ihs _ _ _ ?_ h.2⟩
    intro x hx
    have hboth := List.mem_append.1 hx
    exact List.mem_append.2 (hboth.imp_left (hsubset x))

end Statement

/-- Whether all names in a program are in scope if these rivers are known before. -/
def WellScoped (rivers : List String) (program : Program) : Prop :=
  Statement.areScoped ["rainfall", "day"] rivers program = true

instance (rivers : List String) (program : Program) : Decidable (WellScoped rivers program) :=
  inferInstanceAs (Decidable (Statement.areScoped ["rainfall", "day"] rivers program = true))

/-- Whether a program is free of `and` and `or`. -/
def Strict (program : Program) : Prop :=
  ∀ s ∈ Statement.simplesAll program, ∀ e ∈ s.expressions, e.isStrict = true

/-! ## Values and outcomes without undefined names -/

/-- Whether a value is not missing because of an undefined name. -/
def Defined {α : Type} (value : Except Fault α) : Prop :=
  ∀ x line, value ≠ .error (.undefinedName x line)

/-- Whether a day was not stopped because of an undefined name. -/
def Day.Outcome.Defined (o : Outcome) : Prop :=
  ∀ x line, o.fault ≠ some (.undefinedName x line)

section Values

variable {α β : Type}

/-- A value that is there is not missing. -/
theorem defined_ok (a : α) : Defined (Except.ok a : Except Fault α) := by
  intro x line h
  cases h

/-- Steps in a row have no undefined name if none of them has one. -/
theorem Defined.bind {value : Except Fault α} (h : Defined value) {next : α → Except Fault β}
    (hnext : ∀ a, Defined (next a)) : Defined (value >>= next) := by
  cases value with
  | ok a => exact hnext a
  | error fault =>
    intro x line heq
    cases heq
    exact h x line rfl

/-- Steps in a row that succeed succeed one by one. -/
theorem exists_ok_of_bind {value : Except Fault α} {next : α → Except Fault β} {b : β}
    (h : value >>= next = .ok b) : ∃ a, value = .ok a ∧ next a = .ok b := by
  cases value with
  | ok a => exact ⟨a, rfl, h⟩
  | error fault => cases h

/-- A unary operator meets no undefined name. -/
theorem UnaryOp.defined_apply (op : UnaryOp) (value : Value) (line : Nat) :
    Defined (op.apply value line) := by
  cases op <;> cases value <;> simp [Defined, UnaryOp.apply]

/-- A binary operator meets no undefined name. -/
theorem BinaryOp.defined_apply (op : BinaryOp) (left right : Value) (line : Nat) :
    Defined (op.apply left right line) := by
  cases op <;> cases left <;> cases right <;>
    simp [Defined, BinaryOp.apply, BinaryOp.onNumbers]

/-- Asking for a number meets no undefined name. -/
theorem Value.defined_asNumber (value : Value) (construct : String) (line : Nat) :
    Defined (value.asNumber construct line) := by
  cases value <;> simp [Defined, Value.asNumber]

/-- Setting a factor meets no undefined name. -/
theorem River.defined_setFactor (r : River) (factor : Float) (name : String) (line : Nat) :
    Defined (r.setFactor factor name line) := by
  unfold River.setFactor
  split <;> simp [Defined]

end Values

namespace Day

variable {d : Day}

/-- A day that goes on was not stopped. -/
theorem defined_proceed (d : Day) : d.proceed.Defined := by
  intro x line h
  cases h

/-- What is done given a value meets no undefined name if neither the value nor what follows does.
-/
theorem defined_given {α : Type} {value : Except Fault α} {next : α → Outcome}
    (hvalue : Watershed.Defined value) (hnext : ∀ a, (next a).Defined) :
    (d.given value next).Defined := by
  cases value with
  | ok a => exact hnext a
  | error fault =>
    intro x line h
    cases h
    exact hvalue x line rfl

/-- What is done given a value succeeds only with a value. -/
theorem exists_ok_of_given {α : Type} {value : Except Fault α} {next : α → Outcome}
    (h : (d.given value next).fault = none) : ∃ a, value = .ok a := by
  cases value with
  | ok a => exact ⟨a, rfl⟩
  | error fault => cases h

/-- Writing a line meets no undefined name. -/
theorem defined_emit (d : Day) (text : String) (line : Nat) : (d.emit text line).Defined := by
  intro x l h
  have hwrite : d.sink.write (text ++ "\n") line =
      ((d.emit text line).day.sink, some (.undefinedName x l)) := by
    rw [← h]
    rfl
  have hrefused := Sink.fault_of_write hwrite
  cases hrefused

/-! ## Expressions -/

/-- Whether a name has a meaning today. -/
def Resolves (d : Day) (x : String) : Prop :=
  x ∈ d.rivers.names ∨ d.environment.lookup x ≠ none

/-- A name with a meaning has a value. -/
theorem resolve_of_resolves {x : String} (h : d.Resolves x) (line : Nat) :
    ∃ value, resolve d.rivers d.environment x line = .ok value := by
  unfold resolve
  by_cases hknown : x ∈ d.rivers.names
  · rw [Registry.get?_of_mem_names hknown]
    exact ⟨_, rfl⟩
  · have hbound : d.environment.lookup x ≠ none := h.resolve_left hknown
    obtain ⟨value, hvalue⟩ := Option.ne_none_iff_exists'.1 hbound
    rw [Registry.get?_of_not_mem_names hknown, Environment.get, hvalue]
    exact ⟨value, rfl⟩

/-- A name with a value has a meaning. -/
theorem resolves_of_resolve {x : String} {line : Nat} {value : Value}
    (h : resolve d.rivers d.environment x line = .ok value) : d.Resolves x := by
  by_cases hknown : x ∈ d.rivers.names
  · exact .inl hknown
  · right
    intro hunbound
    rw [resolve, Registry.get?_of_not_mem_names hknown, Environment.get, hunbound] at h
    cases h

/-- An expression whose names all have a meaning meets no undefined name. -/
theorem defined_eval {e : Expr} (h : ∀ x ∈ e.names, d.Resolves x) :
    Watershed.Defined (d.eval e) := by
  unfold eval
  induction e with
  | literal value line => exact defined_ok value
  | name x line =>
    obtain ⟨value, hvalue⟩ := resolve_of_resolves (h x (List.mem_singleton.2 rfl)) line
    rw [Expr.eval, hvalue]
    exact defined_ok value
  | group inner line ih => exact ih h
  | unary op operand line ih => exact (ih h).bind fun value => op.defined_apply value line
  | binary op left right line ihl ihr =>
    have hleft := ihl fun x hx => h x (List.mem_append_left _ hx)
    have hright := ihr fun x hx => h x (List.mem_append_right _ hx)
    exact hleft.bind fun a => hright.bind fun b => op.defined_apply a b line
  | logical op left right line ihl ihr =>
    have hleft := ihl fun x hx => h x (List.mem_append_left _ hx)
    have hright := ihr fun x hx => h x (List.mem_append_right _ hx)
    refine hleft.bind fun a => ?_
    split
    · exact defined_ok a
    · exact hright

/-- If an expression without `and` and `or` has a value, then all its names have a meaning. -/
theorem resolves_of_eval {e : Expr} (hstrict : e.isStrict = true) {value : Value}
    (h : d.eval e = .ok value) : ∀ x ∈ e.names, d.Resolves x := by
  unfold eval at h
  induction e generalizing value with
  | literal v line => simp [Expr.names]
  | name y line =>
    intro x hx
    obtain rfl := List.mem_singleton.1 hx
    exact resolves_of_resolve h
  | group inner line ih => exact ih hstrict h
  | unary op operand line ih =>
    obtain ⟨a, ha, -⟩ := exists_ok_of_bind h
    exact ih hstrict ha
  | binary op left right line ihl ihr =>
    have hboth := Bool.and_eq_true_iff.1 hstrict
    obtain ⟨a, ha, hrest⟩ := exists_ok_of_bind h
    obtain ⟨b, hb, -⟩ := exists_ok_of_bind hrest
    intro x hx
    rcases List.mem_append.1 hx with hx | hx
    · exact ihl hboth.1 ha x hx
    · exact ihr hboth.2 hb x hx
  | logical op left right line ihl ihr => cases hstrict

/-! ## Statements -/

/-- The day as the expressions of a statement see it. The expression of a dam sees its river as
mentioned, and a scope that binds the inflow and the level. -/
def seenBy (d : Day) : Statement → Day
  | .dam name _ _ =>
    let r := (d.rivers.mention name).state name
    { d with
      rivers := d.rivers.mention name
      environment :=
        (d.environment.push.define "inflow" (.number r.inflow)).define
          "damLevel" (.number r.level) }
  | _ => d

/-- A statement meets no undefined name if its expressions meet none. -/
theorem defined_exec_simple {s : Statement} (hblock : s.isBlock = false)
    (h : ∀ e ∈ s.expressions, Watershed.Defined ((d.seenBy s).eval e)) : (s.exec d).Defined := by
  cases s with
  | block => cases hblock
  | expr e line =>
    exact defined_given (h e (List.mem_singleton.2 rfl)) fun _ => defined_proceed d
  | print e line =>
    exact defined_given (h e (List.mem_singleton.2 rfl)) fun value => defined_emit d _ line
  | var name initial line =>
    cases initial with
    | none => exact defined_proceed _
    | some e => exact defined_given (h e (List.mem_singleton.2 rfl)) fun _ => defined_proceed _
  | river name rate line =>
    cases rate with
    | none => exact defined_proceed _
    | some e =>
      have hrate := (h e (List.mem_singleton.2 rfl)).bind fun value =>
        value.defined_asNumber "river" line
      exact defined_given hrate fun _ => defined_proceed _
  | output name line => exact defined_emit _ _ line
  | combine name sources line => exact defined_proceed _
  | flow source target line => exact defined_proceed _
  | dam name mode line =>
    have hfactor : Watershed.Defined
        ((d.withRivers (d.rivers.mention name)).damFactor name mode line) := by
      cases mode with
      | opened => exact defined_ok _
      | closed => exact defined_ok _
      | adjusted e =>
        exact (h e (List.mem_singleton.2 rfl)).bind fun value =>
          value.defined_asNumber "adjust" line
    refine defined_given hfactor fun factor => ?_
    exact defined_given (River.defined_setFactor _ _ _ _) fun _ => defined_proceed _

/-- A statement that succeeds has evaluated its expressions. -/
theorem exists_ok_of_exec {s : Statement} (hblock : s.isBlock = false)
    (h : (s.exec d).fault = none) : ∀ e ∈ s.expressions, ∃ v, (d.seenBy s).eval e = .ok v := by
  intro e he
  cases s with
  | block => cases hblock
  | expr e' line =>
    obtain rfl := List.mem_singleton.1 he
    exact exists_ok_of_given h
  | print e' line =>
    obtain rfl := List.mem_singleton.1 he
    exact exists_ok_of_given h
  | var name initial line =>
    obtain rfl := Option.mem_toList.1 he
    exact exists_ok_of_given h
  | river name rate line =>
    obtain rfl := Option.mem_toList.1 he
    obtain ⟨flow, hflow⟩ := exists_ok_of_given h
    obtain ⟨v, hv, -⟩ := exists_ok_of_bind hflow
    exact ⟨v, hv⟩
  | dam name mode line =>
    cases mode with
    | adjusted e' =>
      obtain rfl := List.mem_singleton.1 he
      obtain ⟨factor, hfactor⟩ := exists_ok_of_given h
      obtain ⟨v, hv, -⟩ := exists_ok_of_bind hfactor
      exact ⟨v, hv⟩
    | _ => cases he
  | _ => cases he

/-! ## Scopes along an execution -/

/-- Whether these are the names bound by variables and those of the rivers known. -/
structure InScope (vars rivers : List String) (d : Day) : Prop where
  vars : ∀ x, x ∈ vars ↔ d.environment.lookup x ≠ none
  rivers : ∀ x, x ∈ rivers ↔ x ∈ d.rivers.names

namespace InScope

variable {vars rivers : List String}

/-- The expressions of a statement see the variables in scope, the rivers known, and what a dam
adds. -/
theorem resolves_seenBy_iff (h : d.InScope vars rivers) (s : Statement) (x : String) :
    (d.seenBy s).Resolves x ↔ x ∈ vars ∨ x ∈ rivers ∨ x ∈ s.damNames := by
  have hplain : d.Resolves x ↔ x ∈ vars ∨ x ∈ rivers := by
    rw [Resolves, h.vars, h.rivers, or_comm]
  cases s with
  | dam name mode line =>
    have hriver : x ∈ (d.rivers.mention name).names ↔ x ∈ rivers ∨ x = name := by
      rw [Registry.names_mention, mem_addName, h.rivers]
    have hbound : (d.seenBy (.dam name mode line)).environment.lookup x ≠ none ↔
        x = "damLevel" ∨ x = "inflow" ∨ x ∈ vars := by
      rw [seenBy, Environment.lookup_define, Environment.lookup_define, Environment.lookup_push,
        h.vars]
      by_cases hlevel : x = "damLevel"
      · simp [hlevel]
      · by_cases hinflow : x = "inflow" <;> simp [hlevel, hinflow]
    show x ∈ (d.rivers.mention name).names ∨
      (d.seenBy (.dam name mode line)).environment.lookup x ≠ none ↔ _
    rw [hriver, hbound]
    simp only [Statement.damNames, List.mem_cons, List.not_mem_nil, or_false]
    grind
  | _ => simpa [seenBy, Statement.damNames] using hplain

/-- The same names are in scope inside a block. -/
theorem opened (h : d.InScope vars rivers) : d.opened.InScope vars rivers :=
  ⟨h.vars, h.rivers⟩

/-- After a statement that succeeds, the variable it declares is in scope, and the rivers it
mentions are known. -/
theorem exec (h : d.InScope vars rivers) {s : Statement} (hfault : (s.exec d).fault = none) :
    (s.exec d).day.InScope (vars ++ s.declared)
      (rivers ++ s.simples.flatMap Statement.mentioned) := by
  constructor
  · intro x
    rcases Statement.environment_exec_cases s d with
      ⟨name, initial, line, value, rfl, -, -, henv⟩ | ⟨hfails, henv⟩
    · rw [henv, Environment.lookup_define, List.mem_append, h.vars]
      by_cases hx : x = name <;> simp [Statement.declared, hx]
    · have hnone : s.declared = [] := by
        cases s with
        | var name initial line => exact absurd hfault (hfails name initial line rfl)
        | _ => rfl
      rw [henv, hnone, List.append_nil]
      exact h.vars x
  · intro x
    rw [Statement.names_exec hfault, mem_addNames, List.mem_append, h.rivers]

end InScope

/-- A day begins with `rainfall`, `day` and the rivers known before in scope. -/
theorem inScope_start (g : Registry) (rainfall : Float) (number : Nat) (k : Sink) :
    (start g rainfall number k).InScope ["rainfall", "day"] g.names := by
  constructor
  · intro x
    rw [start, Environment.lookup_define, Environment.lookup_define]
    by_cases hday : x = "day"
    · simp [hday]
    · by_cases hrain : x = "rainfall" <;>
        simp [hday, hrain, Environment.root, Environment.lookup, Scope.empty]
  · intro x
    have hnames : (start g rainfall number k).rivers.names = g.names := g.names_startDay
    rw [hnames]

end Day

namespace Statement

/-- Statements that are scoped meet no undefined name. -/
theorem defined_exec :
    (∀ (s : Statement) (d : Day) (vars rivers : List String), d.InScope vars rivers →
      s.isScoped vars rivers = true → (s.exec d).Defined) ∧
    ∀ (ss : List Statement) (d : Day) (vars rivers : List String),
      d.InScope vars rivers → areScoped vars rivers ss = true →
      (execAll ss d).Defined := by
  apply induction_lists
  case simple =>
    intro s hblock d vars rivers hscope h
    have hnames := (isScoped_simple hblock vars rivers).1 h
    apply Day.defined_exec_simple hblock
    intro e he
    apply Day.defined_eval
    intro x hx
    exact (hscope.resolves_seenBy_iff s x).2 (hnames e he x hx)
  case block =>
    intro body line ih d vars rivers hscope h
    rw [isScoped] at h
    rw [exec_block]
    exact ih d.opened vars rivers hscope.opened h
  case nil =>
    intro d vars rivers _ _
    exact Day.defined_proceed d
  case cons =>
    intro s ss ih ihs d vars rivers hscope h
    obtain ⟨hfirst, hmore⟩ := (areScoped_cons vars rivers s ss).1 h
    rw [execAll_cons]
    refine Day.Outcome.andThen_induction (P := Day.Outcome.Defined) ?_ ?_
    · intro _
      exact ih d vars rivers hscope hfirst
    · intro hfault
      exact ihs _ _ _ (hscope.exec hfault) hmore

/-- Statements that succeed are scoped if they evaluate all parts of their expressions. -/
theorem isScoped_of_exec :
    (∀ s : Statement, (∀ t ∈ s.simples, ∀ e ∈ t.expressions, e.isStrict = true) →
      ∀ (d : Day) (vars rivers : List String), d.InScope vars rivers →
        (s.exec d).fault = none → s.isScoped vars rivers = true) ∧
    ∀ ss : List Statement, Strict ss →
      ∀ (d : Day) (vars rivers : List String), d.InScope vars rivers →
        (execAll ss d).fault = none → areScoped vars rivers ss = true := by
  apply induction_lists
  case simple =>
    intro s hblock hstrict d vars rivers hscope hfault
    rw [isScoped_simple hblock]
    intro e he x hx
    have hmem : s ∈ s.simples := by
      rw [simples_of_isBlock_eq_false hblock]
      exact List.mem_singleton.2 rfl
    obtain ⟨value, hvalue⟩ := Day.exists_ok_of_exec hblock hfault e he
    have hresolves := Day.resolves_of_eval (hstrict s hmem e he) hvalue x hx
    exact (hscope.resolves_seenBy_iff s x).1 hresolves
  case block =>
    intro body line ih hstrict d vars rivers hscope hfault
    rw [simples] at hstrict
    rw [exec_block] at hfault
    rw [isScoped]
    exact ih hstrict d.opened vars rivers hscope.opened hfault
  case nil =>
    intro _ d vars rivers _ _
    rfl
  case cons =>
    intro s ss ih ihs hstrict d vars rivers hscope hfault
    have hboth := List.forall_mem_append.1 hstrict
    rw [execAll_cons] at hfault
    rw [areScoped_cons]
    cases hfirst : (s.exec d).fault with
    | none =>
      have hmore : (execAll ss (s.exec d).day).fault = none := by
        simpa [Day.Outcome.andThen, hfirst] using hfault
      exact ⟨ih hboth.1 d vars rivers hscope hfirst,
        ihs hboth.2 _ _ _ (hscope.exec hfirst) hmore⟩
    | some fault => simp [Day.Outcome.andThen, hfirst] at hfault

end Statement

/-! ## Programs -/

/-- A day of a well-scoped program meets no undefined name, whatever else is known. -/
theorem WellScoped.defined_outcome {rivers : List String} {program : Program}
    (h : WellScoped rivers program) {g : Registry} (hg : ∀ x ∈ rivers, x ∈ g.names)
    (rainfall : Float) (number : Nat) (k : Sink) :
    (DayPlan.outcome ⟨program, rainfall, number, k⟩ g).Defined := by
  have hknown := Statement.isScoped_of_subset.2 program _ rivers g.names hg h
  exact Statement.defined_exec.2 program _ _ _ (Day.inScope_start g rainfall number k) hknown

/-- Days in a row of a well-scoped program meet no undefined name. -/
theorem WellScoped.runDays_ne_undefined {rivers : List String} {program : Program}
    (h : WellScoped rivers program) (config : Config) (count day : Nat) {g : Registry}
    (hg : ∀ x ∈ rivers, x ∈ g.names) (k : Sink) (x : String) (line : Nat) :
    (Simulation.runDays config program count day g k).fault ≠ some (.undefinedName x line) := by
  induction count generalizing day g k with
  | zero => simp [Simulation.runDays]
  | succ count ih =>
    obtain ⟨hfault, hnext⟩ : (Simulation.runDay config program day g k).fault ≠
        some (.undefinedName x line) ∧
        ∀ y ∈ rivers, y ∈ (Simulation.runDay config program day g k).rivers.names := by
      rcases Simulation.runDay_cases config program day g k with
        ⟨hrivers, details, hrefused⟩ | ⟨k', hrivers, hfault⟩
      · rw [hrivers, hrefused]
        exact ⟨by simp, hg⟩
      · rw [hrivers]
        refine ⟨?_, fun y hy => (DayPlan.names_prefix _ g).subset (hg y hy)⟩
        rcases hfault with hsame | ⟨details, hrefused⟩
        · rw [hsame]
          exact h.defined_outcome hg config.rainfall day k' x line
        · simp [hrefused]
    rw [Simulation.runDays]
    split <;> rename_i heq <;> rw [heq] at hfault hnext
    · exact hfault
    · exact ih (day + 1) hnext _

/-- A program that is well scoped over some rivers meets no undefined name on any day that begins
with those rivers known, whatever days went before, nor on any day of a simulation. A program
without `and` and `or` that succeeds on a first day, with no rivers known, is well scoped. -/
theorem scoping_sound_and_complete (program : Program) :
    (∀ rivers : List String, WellScoped rivers program →
      ∀ g : Registry, (∀ x ∈ rivers, x ∈ g.names) → ∀ (x : String) (line : Nat),
        (∀ (earlier : List DayPlan) (rainfall : Float) (number : Nat) (k : Sink),
          (DayPlan.outcome ⟨program, rainfall, number, k⟩ (g.afterDays earlier)).fault ≠
            some (.undefinedName x line)) ∧
        ∀ (config : Config) (count day : Nat) (k : Sink),
          (Simulation.runDays config program count day g k).fault ≠
            some (.undefinedName x line)) ∧
    (Strict program → ∀ (rainfall : Float) (k : Sink),
      (DayPlan.outcome ⟨program, rainfall, 1, k⟩ Registry.empty).fault = none →
        WellScoped [] program) := by
  constructor
  · intro rivers h g hg x line
    constructor
    · intro earlier rainfall number k
      have hknown : ∀ y ∈ rivers, y ∈ (g.afterDays earlier).names := by
        intro y hy
        exact (g.names_prefix_afterDays earlier).subset (hg y hy)
      exact h.defined_outcome hknown rainfall number k x line
    · intro config count day k
      exact h.runDays_ne_undefined config count day hg k x line
  · intro hstrict rainfall k hfault
    have hscope := Day.inScope_start Registry.empty rainfall 1 k
    exact Statement.isScoped_of_exec.2 program hstrict _ _ _ hscope hfault

/-- A variable and a river in a block, a dam that uses its inflow and another river, and a name that
only an earlier day has mentioned: the program is well-scoped if that river is known before, and
without the statement that reads it in any case. -/
theorem scoping_sound_and_complete_blocks :
    let g := Registry.empty.mention "R"
    let before : Statement := .print (.name "R" 1) 1
    let rest : Program :=
      [.block [.var "x" (some (.name "day" 2)) 2, .river "A" (some (.name "x" 3)) 3] 2,
        .dam "B" (.adjusted (.binary .add (.name "inflow" 5) (.name "A" 5) 5)) 5,
        .print (.binary .mul (.name "B" 6) (.name "rainfall" 6) 6) 6]
    WellScoped ["R"] (before :: rest) ∧ Strict rest ∧
      (Simulation.runDays Config.standard (before :: rest) 3 1 g Sink.unlimited).fault ≠
        some (.undefinedName "R" 1) ∧
      ¬ WellScoped [] (before :: rest) ∧ WellScoped [] rest := by
  intro g before rest
  have hscoped : WellScoped ["R"] (before :: rest) := by decide +kernel
  have hstrict : Strict rest := by
    unfold Strict
    decide +kernel
  have hfault : (DayPlan.outcome ⟨rest, 1.0, 1, Sink.unlimited⟩ Registry.empty).fault = none := by
    decide +kernel
  have hsound := (scoping_sound_and_complete (before :: rest)).1 ["R"] hscoped g (by decide) "R" 1
  have hrun := hsound.2 Config.standard 3 1 Sink.unlimited
  have hcomplete := (scoping_sound_and_complete rest).2 hstrict 1.0 Sink.unlimited hfault
  exact ⟨hscoped, hstrict, hrun, by decide +kernel, hcomplete⟩

end Watershed
