import Watershed.Proofs.Execution

/-!
# Scope discipline

Every scope that a statement opens is closed again, however the statement ends: the scopes around
the innermost one come out as they went in, and so does the innermost one, unless the statement is
a declaration that succeeds. A list of statements therefore rebinds no names but those it declares
itself, outside of the blocks in it.
-/

set_option autoImplicit false

namespace Watershed

/-- The initial value of a variable that is declared today. -/
def Day.initialValue (d : Day) (initial : Option Expr) : Except Fault Value :=
  match initial with
  | some e => d.eval e
  | none => .ok .nil

namespace Statement

/-- A declaration binds its name to its initial value or, where there is none, changes nothing. -/
theorem exec_var_cases (name : String) (initial : Option Expr) (line : Nat) (d : Day) :
    (∃ value, d.initialValue initial = .ok value ∧
      (var name initial line).exec d =
        Day.proceed { d with environment := d.environment.define name value }) ∨
    ∃ fault, (var name initial line).exec d = d.stop fault := by
  have hexec : (var name initial line).exec d =
      d.given (d.initialValue initial) fun value =>
        Day.proceed { d with environment := d.environment.define name value } := by
    rw [exec]
    rfl
  cases hvalue : d.initialValue initial with
  | ok value =>
    left
    exact ⟨value, rfl, by rw [hexec, hvalue, Day.given_ok]⟩
  | error fault =>
    right
    exact ⟨fault, by rw [hexec, hvalue, Day.given_error]⟩

/-- A statement leaves the scopes as they are, unless it is a declaration that succeeds. -/
theorem environment_exec_cases (s : Statement) (d : Day) :
    (∃ name initial line value, s = var name initial line ∧
      d.initialValue initial = .ok value ∧ (s.exec d).fault = none ∧
      (s.exec d).day.environment = d.environment.define name value) ∨
    (∀ name initial line, s = var name initial line → (s.exec d).fault ≠ none) ∧
      (s.exec d).day.environment = d.environment := by
  cases s with
  | var name initial line =>
    rcases exec_var_cases name initial line d with ⟨value, hvalue, hexec⟩ | ⟨fault, hexec⟩
    · left
      rw [hexec]
      exact ⟨name, initial, line, value, rfl, hvalue, rfl, rfl⟩
    · right
      rw [hexec]
      exact ⟨fun _ _ _ _ => Option.some_ne_none fault, rfl⟩
  | block body line => exact .inr ⟨nofun, environment_exec_block body line d⟩
  | _ => exact .inr ⟨nofun, environment_exec rfl rfl d⟩

/-- A statement that does not declare a name leaves what the innermost scope binds it to. -/
theorem innermost_exec {s : Statement} {name : String} (d : Day)
    (hname : ∀ initial line, s ≠ var name initial line) :
    (s.exec d).day.environment.innermost name = d.environment.innermost name := by
  rcases environment_exec_cases s d with ⟨other, initial, line, value, rfl, -, -, henv⟩ | ⟨-, henv⟩
  · have hne : name ≠ other := by
      rintro rfl
      exact hname initial line rfl
    rw [henv]
    exact if_neg hne
  · rw [henv]

/-- Statements of which none declares a name leave what the innermost scope binds it to. -/
theorem innermost_execAll {ss : List Statement} {name : String} (d : Day)
    (hname : ∀ initial line, var name initial line ∉ ss) :
    (execAll ss d).day.environment.innermost name = d.environment.innermost name := by
  induction ss generalizing d with
  | nil => rfl
  | cons s ss ih =>
    have hfirst : (s.exec d).day.environment.innermost name = d.environment.innermost name := by
      apply innermost_exec
      rintro initial line rfl
      exact hname initial line (by simp)
    rw [execAll_cons]
    refine Day.Outcome.andThen_induction
      (P := fun o => o.day.environment.innermost name = d.environment.innermost name)
      (fun _ => hfirst) fun _ => ?_
    have hmore : ∀ initial line, var name initial line ∉ ss := by
      intro initial line hmem
      exact hname initial line (List.mem_cons_of_mem s hmem)
    rw [ih (s.exec d).day hmore, hfirst]

/-- Whatever the sink does and however a statement ends, the number of scopes and the scopes around
the innermost one stay as they are. The innermost one stays as it is unless a declaration succeeds,
which rebinds its name and no other. A list of statements rebinds no name that it does not declare
outside of the blocks in it. -/
theorem scope_discipline (d : Day) :
    (∀ s : Statement,
      (s.exec d).day.environment.depth = d.environment.depth ∧
      (s.exec d).day.environment.enclosing = d.environment.enclosing ∧
      ((∀ name initial line, s ≠ var name initial line) ∨ (s.exec d).fault ≠ none →
        (s.exec d).day.environment.innermost = d.environment.innermost) ∧
      ∀ name initial line, s = var name initial line → (s.exec d).fault = none →
        ∃ value, d.initialValue initial = .ok value ∧
          (s.exec d).day.environment.innermost = d.environment.innermost.bind name value) ∧
    ∀ ss : List Statement,
      (execAll ss d).day.environment.depth = d.environment.depth ∧
      (execAll ss d).day.environment.enclosing = d.environment.enclosing ∧
      ∀ name, (∀ initial line, var name initial line ∉ ss) →
        (execAll ss d).day.environment.innermost name = d.environment.innermost name := by
  obtain ⟨henclosing, henclosingAll⟩ := enclosing_exec
  constructor
  · intro s
    refine ⟨?_, henclosing s d, ?_, ?_⟩
    · unfold Environment.depth
      rw [henclosing s d]
    · intro hplain
      rcases environment_exec_cases s d with ⟨name, initial, line, _, hs, -, hfault, -⟩ | ⟨-, henv⟩
      · rcases hplain with hvar | hfails
        · exact absurd hs (hvar name initial line)
        · exact absurd hfault hfails
      · rw [henv]
    · rintro name initial line rfl hfault
      rcases environment_exec_cases (var name initial line) d with
        ⟨_, _, _, value, hs, hvalue, -, henv⟩ | ⟨hfails, -⟩
      · cases hs
        exact ⟨value, hvalue, by rw [henv]; rfl⟩
      · exact absurd hfault (hfails name initial line rfl)
  · intro ss
    refine ⟨?_, henclosingAll ss d, fun name hname => innermost_execAll d hname⟩
    unfold Environment.depth
    rw [henclosingAll ss d]

/-- A block that declares `day` and fails in a block inside it, since the sink refuses its output:
all scopes are closed and nothing is bound outside. The same declaration outside of a block binds.
-/
theorem scope_discipline_refused :
    let d := Day.start Registry.empty 1.0 1 (Sink.limited ⟨0, "closed"⟩)
    let refused := block [var "day" none 2, block [print (.name "day" 3) 3] 3] 1
    (refused.exec d).fault ≠ none ∧
      (refused.exec d).day.environment.depth = d.environment.depth ∧
      (refused.exec d).day.environment.innermost = d.environment.innermost ∧
      ∃ value, ((var "day" none 1).exec d).day.environment.innermost =
        d.environment.innermost.bind "day" value := by
  intro d refused
  have hfault : (refused.exec d).fault ≠ none := by decide +kernel
  obtain ⟨hdepth, -, hsame, -⟩ := (scope_discipline d).1 refused
  obtain ⟨-, -, -, hdeclared⟩ := (scope_discipline d).1 (var "day" none 1)
  obtain ⟨value, -, hbound⟩ := hdeclared "day" none 1 rfl (by decide +kernel)
  exact ⟨hfault, hdepth, hsame (.inr hfault), value, hbound⟩

end Statement

end Watershed
