import Watershed.Proofs.Execution

/-!
# What a statement does to the rivers

Each kind of simple statement can do one or two things to the rivers, according to whether it
succeeds. `RiverEffect` lists them once, and the facts about rivers that hold along every execution
are read off this list. Executions leave the rivers alone but for these effects.
-/

set_option autoImplicit false

namespace Watershed

/-- What a simple statement can leave of the rivers of a day, together with the fault it can end
with. -/
inductive RiverEffect (d : Day) : Statement → Registry → Option Fault → Prop
  | untouched {s : Statement} (names_none : s.mentioned = []) (fault : Option Fault) :
      RiverEffect d s d.rivers fault
  | unset (name : String) (rate : Expr) (line : Nat) (fault : Fault) :
      RiverEffect d (.river name (some rate) line) d.rivers (some fault)
  | set (name : String) (rate : Option Expr) (line : Nat) (flow : Float) :
      RiverEffect d (.river name rate line) (d.rivers.update name (·.setOwn flow)) none
  | reported (name : String) (line : Nat) (fault : Option Fault) :
      RiverEffect d (.output name line) (d.rivers.mention name) fault
  | combined (name : String) (sources : List String) (line : Nat) :
      RiverEffect d (.combine name sources line)
        ((d.rivers.mentionAll sources).update name (·.setOwn (d.rivers.totalOutflow sources))) none
  | passedOn (source target : String) (line : Nat) :
      RiverEffect d (.flow source target line)
        ((d.rivers.mention source).update target (·.receive (d.rivers.state source).outflow)) none
  | undammed (name : String) (e : Expr) (line : Nat) (fault : Fault) :
      RiverEffect d (.dam name (.adjusted e) line) (d.rivers.mention name) (some fault)
  | dammed (name : String) (mode : DamMode) (line : Nat) {factor : Float} {r : River}
      (accepted : (d.rivers.state name).setFactor factor name line = .ok r) :
      RiverEffect d (.dam name mode line)
        (d.rivers.put name (r.raise (Day.levelChange d.rainfall (d.rivers.state name) factor))) none

namespace Statement

/-- Setting a dam has one of the effects on the rivers that the relation lists. -/
theorem riverEffect_dam (name : String) (mode : DamMode) (line : Nat) (d : Day) :
    RiverEffect d (dam name mode line) (d.setDam name mode line).day.rivers
      (d.setDam name mode line).fault := by
  let Effect (o : Day.Outcome) : Prop := RiverEffect d (dam name mode line) o.day.rivers o.fault
  show Effect (d.setDam name mode line)
  refine Day.given_induction (P := Effect) (fun factor hfactor => ?_) fun fault hfault => ?_
  · refine Day.given_induction (P := Effect) (fun r hr => ?_) fun fault hfault => ?_
    · exact .dammed name mode line hr
    · -- The factors of open and closed dams are accepted.
      cases mode with
      | opened => cases hfactor; cases hfault
      | closed => cases hfactor; cases hfault
      | adjusted e => exact .undammed name e line fault
  · cases mode with
    | opened => cases hfault
    | closed => cases hfault
    | adjusted e => exact .undammed name e line fault

/-- Every simple statement has one of the effects on the rivers that the relation lists. -/
theorem riverEffect_exec {s : Statement} (hblock : s.isBlock = false) (d : Day) :
    RiverEffect d s (s.exec d).day.rivers (s.exec d).fault := by
  let Effect (o : Day.Outcome) : Prop := RiverEffect d s o.day.rivers o.fault
  show Effect (s.exec d)
  cases s with
  | block => cases hblock
  | expr e line =>
    apply Day.given_induction (P := Effect)
    · exact fun _ _ => .untouched rfl _
    · exact fun _ _ => .untouched rfl _
  | print e line =>
    apply Day.given_induction (P := Effect)
    · exact fun _ _ => .untouched rfl _
    · exact fun _ _ => .untouched rfl _
  | var name initial line =>
    apply Day.given_induction (P := Effect)
    · exact fun _ _ => .untouched rfl _
    · exact fun _ _ => .untouched rfl _
  | river name rate line =>
    refine Day.given_induction (P := Effect) (fun flow _ => .set name rate line flow) ?_
    intro fault hfault
    cases rate with
    | none => cases hfault
    | some e => exact .unset name e line fault
  | output name line => exact .reported name line _
  | combine name sources line => exact .combined name sources line
  | flow source target line => exact .passedOn source target line
  | dam name mode line => exact riverEffect_dam name mode line d

/-- A relation between rivers before and after that holds of the effects of some simple statements,
and goes from two executions to both in a row, holds of all executions of these statements. -/
theorem rivers_exec_induction_of {P : Statement → Prop} {R : Registry → Registry → Prop}
    (refl : ∀ g, R g g) (trans : ∀ g g' g'', R g g' → R g' g'' → R g g'')
    (effect : ∀ d s g fault, P s → RiverEffect d s g fault → R d.rivers g) :
    (∀ s : Statement, (∀ t ∈ s.simples, P t) → ∀ d : Day, R d.rivers (s.exec d).day.rivers) ∧
    ∀ ss : List Statement, (∀ t ∈ simplesAll ss, P t) →
      ∀ d : Day, R d.rivers (execAll ss d).day.rivers := by
  apply induction_lists
  case simple =>
    intro s hblock hs d
    rw [simples_of_isBlock_eq_false hblock] at hs
    exact effect d s _ _ (hs s (List.mem_singleton.2 rfl)) (riverEffect_exec hblock d)
  case block =>
    intro body line ih hbody d
    rw [simples] at hbody
    rw [exec_block]
    exact ih hbody d.opened
  case nil =>
    intro _ d
    exact refl d.rivers
  case cons =>
    intro s ss ih ihs hall d
    rw [simplesAll, List.forall_mem_append] at hall
    have hfirst := ih hall.1 d
    rw [execAll_cons]
    refine Day.Outcome.andThen_induction (P := fun o => R d.rivers o.day.rivers)
      (fun _ => hfirst) ?_
    intro _
    exact trans _ _ _ hfirst (ihs hall.2 (s.exec d).day)

/-- A relation between rivers before and after that holds of every effect, and goes from two
executions to both in a row, holds of all executions. -/
theorem rivers_exec_induction {R : Registry → Registry → Prop} (refl : ∀ g, R g g)
    (trans : ∀ g g' g'', R g g' → R g' g'' → R g g'')
    (effect : ∀ d s g fault, RiverEffect d s g fault → R d.rivers g) :
    (∀ (s : Statement) (d : Day), R d.rivers (s.exec d).day.rivers) ∧
    ∀ (ss : List Statement) (d : Day), R d.rivers (execAll ss d).day.rivers := by
  obtain ⟨hexec, hexecAll⟩ := rivers_exec_induction_of (P := fun _ => True) refl trans
    fun d s g fault _ => effect d s g fault
  exact ⟨fun s => hexec s fun _ _ => trivial, fun ss => hexecAll ss fun _ _ => trivial⟩

end Statement

end Watershed
