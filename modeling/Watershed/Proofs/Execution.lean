import Watershed.Day
import Watershed.Proofs.Syntax

/-!
# What an execution leaves alone

A block opens a scope, executes its body and closes the scope. A simple statement leaves the
scopes as they are, but for a declaration, which binds its name in the innermost one. So no
statement touches the scopes around the innermost one, and a block touches none at all. Two
executions of the same statements can therefore be compared statement by statement, whatever blocks
these stand in.
-/

set_option autoImplicit false

namespace Watershed

namespace Day

/-- The day inside a block. -/
def opened (d : Day) : Day :=
  { d with environment := d.environment.push }

/-- The outcome of a block, from the outcome of its body. -/
def Outcome.closed (o : Outcome) : Outcome :=
  ⟨{ o.day with environment := o.day.environment.pop }, o.fault⟩

/-- What a program comes to on a day that begins with these rivers and has a sink that never
refuses. -/
def freeOutcome (program : List Statement) (rainfall : Float) (number : Nat) (rivers : Registry) :
    Outcome :=
  Statement.execAll program (start rivers rainfall number Sink.unlimited)

/-- With a value at hand the day goes on. -/
theorem given_ok {α : Type} (d : Day) (a : α) (next : α → Outcome) :
    d.given (.ok a) next = next a :=
  rfl

/-- Without a value the day stops. -/
theorem given_error {α : Type} (d : Day) (fault : Fault) (next : α → Outcome) :
    d.given (.error fault) next = d.stop fault :=
  rfl

/-- What holds of every way to go on, and of the day stopped as it is, holds of whatever is done
given a value. -/
theorem given_induction {α : Type} {d : Day} {value : Except Fault α} {next : α → Outcome}
    {P : Outcome → Prop} (ok : ∀ a, value = .ok a → P (next a))
    (error : ∀ fault, value = .error fault → P (d.stop fault)) : P (d.given value next) := by
  cases value with
  | ok a => exact ok a rfl
  | error fault => exact error fault rfl

/-- What holds of an outcome with a fault, and of what is done after one without, holds of both in
a row. -/
theorem Outcome.andThen_induction {o : Outcome} {next : Day → Outcome} {P : Outcome → Prop}
    (stopped : o.fault ≠ none → P o) (proceeds : o.fault = none → P (next o.day)) :
    P (o.andThen next) := by
  obtain ⟨d, fault⟩ := o
  cases fault with
  | none => exact proceeds rfl
  | some f => exact stopped (by simp)

end Day

namespace Statement

/-- Executing a block is executing its body between the opening and the closing of a scope. -/
theorem exec_block (body : List Statement) (line : Nat) (d : Day) :
    (block body line).exec d = (execAll body d.opened).closed := by
  rw [exec]
  rfl

/-- Executing several statements is executing the first and then the others, unless it fails. -/
theorem execAll_cons (s : Statement) (ss : List Statement) (d : Day) :
    execAll (s :: ss) d = (s.exec d).andThen (execAll ss) := by
  rw [execAll]

/-- A simple statement that declares nothing changes nothing but the rivers and the sink. -/
theorem exists_day_exec {s : Statement} (hblock : s.isBlock = false) (hvar : s.declared = [])
    (d : Day) : ∃ rivers sink, (s.exec d).day = ⟨d.rainfall, d.environment, rivers, sink⟩ := by
  let Changes (o : Day.Outcome) : Prop :=
    ∃ rivers sink, o.day = ⟨d.rainfall, d.environment, rivers, sink⟩
  show Changes (s.exec d)
  cases s with
  | block => cases hblock
  | var => cases hvar
  | expr e line =>
    apply Day.given_induction (P := Changes)
    · exact fun _ _ => ⟨_, _, rfl⟩
    · exact fun _ _ => ⟨_, _, rfl⟩
  | print e line =>
    apply Day.given_induction (P := Changes)
    · exact fun _ _ => ⟨_, _, rfl⟩
    · exact fun _ _ => ⟨_, _, rfl⟩
  | river name rate line =>
    apply Day.given_induction (P := Changes)
    · exact fun _ _ => ⟨_, _, rfl⟩
    · exact fun _ _ => ⟨_, _, rfl⟩
  | output name line => exact ⟨_, _, rfl⟩
  | combine name sources line => exact ⟨_, _, rfl⟩
  | flow source target line => exact ⟨_, _, rfl⟩
  | dam name mode line =>
    refine Day.given_induction (P := Changes) (fun factor _ => ?_) fun _ _ => ⟨_, _, rfl⟩
    exact Day.given_induction (P := Changes) (fun _ _ => ⟨_, _, rfl⟩) fun _ _ => ⟨_, _, rfl⟩

/-- A simple statement that declares nothing leaves the scopes as they are. -/
theorem environment_exec {s : Statement} (hblock : s.isBlock = false) (hvar : s.declared = [])
    (d : Day) : (s.exec d).day.environment = d.environment := by
  obtain ⟨rivers, sink, hday⟩ := exists_day_exec hblock hvar d
  rw [hday]

/-- A declaration leaves the scopes as they are or binds its name in the innermost one. -/
theorem environment_exec_var (name : String) (initial : Option Expr) (line : Nat) (d : Day) :
    ((var name initial line).exec d).day.environment = d.environment ∨
      ∃ value, ((var name initial line).exec d).day.environment =
        d.environment.define name value :=
  Day.given_induction
    (P := fun o => o.day.environment = d.environment ∨
      ∃ value, o.day.environment = d.environment.define name value)
    (fun value _ => .inr ⟨value, rfl⟩) fun _ _ => .inl rfl

/-- No execution touches the scopes around the innermost one. -/
theorem enclosing_exec :
    (∀ (s : Statement) (d : Day),
      (s.exec d).day.environment.enclosing = d.environment.enclosing) ∧
    ∀ (ss : List Statement) (d : Day),
      (execAll ss d).day.environment.enclosing = d.environment.enclosing := by
  apply induction_lists
  case simple =>
    intro s hblock d
    cases s with
    | var name initial line =>
      rcases environment_exec_var name initial line d with h | ⟨value, h⟩
      · rw [h]
      · rw [h]
        rfl
    | _ => rw [environment_exec hblock rfl]
  case block =>
    intro body line ih d
    have hbody : (execAll body d.opened).day.environment.enclosing =
        d.environment.innermost :: d.environment.enclosing := ih d.opened
    rw [exec_block, Day.Outcome.closed, Environment.pop, hbody]
  case nil =>
    intro d
    rfl
  case cons =>
    intro s ss ih ihs d
    rw [execAll_cons]
    refine Day.Outcome.andThen_induction
      (P := fun o => o.day.environment.enclosing = d.environment.enclosing) (fun _ => ih d) ?_
    intro _
    rw [ihs, ih]

/-- No execution changes the rainfall. -/
theorem rainfall_exec :
    (∀ (s : Statement) (d : Day), (s.exec d).day.rainfall = d.rainfall) ∧
    ∀ (ss : List Statement) (d : Day), (execAll ss d).day.rainfall = d.rainfall := by
  apply induction_lists
  case simple =>
    intro s hblock d
    cases s with
    | var name initial line =>
      exact Day.given_induction (P := fun o => o.day.rainfall = d.rainfall) (fun _ _ => rfl)
        fun _ _ => rfl
    | _ =>
      obtain ⟨rivers, sink, hday⟩ := exists_day_exec hblock rfl d
      rw [hday]
  case block =>
    intro body line ih d
    rw [exec_block]
    exact ih d.opened
  case nil =>
    intro d
    rfl
  case cons =>
    intro s ss ih ihs d
    rw [execAll_cons]
    refine Day.Outcome.andThen_induction (P := fun o => o.day.rainfall = d.rainfall)
      (fun _ => ih d) ?_
    intro _
    rw [ihs, ih]

/-- A block leaves all scopes as they are. -/
theorem environment_exec_block (body : List Statement) (line : Nat) (d : Day) :
    ((block body line).exec d).day.environment = d.environment := by
  have hbody : (execAll body d.opened).day.environment.enclosing =
      d.environment.innermost :: d.environment.enclosing := enclosing_exec.2 body d.opened
  rw [exec_block, Day.Outcome.closed, Environment.pop, hbody]

end Statement

/-! ## Two executions side by side -/

/-- Whether two outcomes have the same fault on days that are related, or else the first day was
stopped by a fault of some kind. -/
def Day.Outcome.Related (R : Day → Day → Prop) (E : Fault → Prop) (o o' : Outcome) : Prop :=
  (o.fault = o'.fault ∧ R o.day o'.day) ∨ ∃ fault, o.fault = some fault ∧ E fault

/-- Outcomes that are related go on to outcomes that are related. -/
theorem Day.Outcome.Related.andThen {R : Day → Day → Prop} {E : Fault → Prop} {o o' : Outcome}
    (h : o.Related R E o') {next : Day → Outcome}
    (hnext : ∀ d d' : Day, R d d' → (next d).Related R E (next d')) :
    (o.andThen next).Related R E (o'.andThen next) := by
  obtain ⟨d, fault⟩ := o
  obtain ⟨d', fault'⟩ := o'
  rcases h with ⟨hfault, hdays⟩ | ⟨f, hfault, hkind⟩
  · obtain rfl : fault = fault' := hfault
    cases fault with
    | none => exact hnext d d' hdays
    | some f => exact .inl ⟨rfl, hdays⟩
  · obtain rfl : fault = some f := hfault
    exact .inr ⟨f, rfl, hkind⟩

/-- A relation between days that some simple statements keep, and that survives the opening and
the closing of a scope, is kept by all executions of these statements. -/
theorem Statement.related_exec {P : Statement → Prop} {R : Day → Day → Prop} {E : Fault → Prop}
    (simple : ∀ s : Statement, s.isBlock = false → P s → ∀ d d' : Day, R d d' →
      (s.exec d).Related R E (s.exec d'))
    (opened : ∀ d d' : Day, R d d' → R d.opened d'.opened)
    (closed : ∀ d d' e e' : Day, R d d' → R e e' →
      R { e with environment := d.environment } { e' with environment := d'.environment }) :
    (∀ s : Statement, (∀ t ∈ s.simples, P t) → ∀ d d' : Day, R d d' →
      (s.exec d).Related R E (s.exec d')) ∧
    ∀ ss : List Statement, (∀ t ∈ simplesAll ss, P t) → ∀ d d' : Day, R d d' →
      (execAll ss d).Related R E (execAll ss d') := by
  apply induction_lists
  case simple =>
    intro s hblock hs d d' h
    rw [simples_of_isBlock_eq_false hblock] at hs
    exact simple s hblock (hs s (List.mem_singleton.2 rfl)) d d' h
  case block =>
    intro body line ih hs d d' h
    rw [simples] at hs
    have henv := environment_exec_block body line d
    have henv' := environment_exec_block body line d'
    rw [exec_block] at henv henv' ⊢
    rw [exec_block]
    rcases ih hs d.opened d'.opened (opened d d' h) with ⟨hfault, hdays⟩ | hkind
    · -- The scopes after the block are those before it.
      have hclosed := closed d d' _ _ h hdays
      rw [← henv, ← henv'] at hclosed
      exact .inl ⟨hfault, hclosed⟩
    · exact .inr hkind
  case nil =>
    intro _ d d' h
    exact .inl ⟨rfl, h⟩
  case cons =>
    intro s ss ih ihs hs d d' h
    rw [simplesAll, List.forall_mem_append] at hs
    rw [execAll_cons, execAll_cons]
    exact (ih hs.1 d d' h).andThen (ihs hs.2)

end Watershed
