import Watershed.Proofs.Mentions

/-!
# What a program reads before it mentions it

The value of an expression depends on the names that its evaluation comes to, from left to right and
up to the first fault, and on no others (`Expr.eval_congr`). A name that the program has mentioned
as a river before means that river, whatever was known when the day began. So two days that differ
in nothing but the rivers they know go the same way, if they know the same ones among the names that
are read before the program has mentioned them (`matches_exec`).
-/

set_option autoImplicit false

namespace Watershed

/-! ## Reading names -/

/-- The names that the evaluation of an expression reads. The right operand is not reached if the
left one has no value, or decides the result. -/
def Expr.reads (rivers : Registry) (env : Environment) : Expr → List String
  | literal _ _ => []
  | name n _ => [n]
  | group inner _ => inner.reads rivers env
  | unary _ operand _ => operand.reads rivers env
  | binary _ left right _ =>
    left.reads rivers env ++
      match left.eval rivers env with
      | .ok _ => right.reads rivers env
      | .error _ => []
  | logical op left right _ =>
    left.reads rivers env ++
      match left.eval rivers env with
      | .ok a => if op.decidedBy a then [] else right.reads rivers env
      | .error _ => []

/-- An expression has the same value wherever the names that are read mean the same. -/
theorem Expr.eval_congr {g g' : Registry} {env env' : Environment} {e : Expr}
    (h : ∀ x ∈ e.reads g env, ∀ line, resolve g env x line = resolve g' env' x line) :
    e.eval g env = e.eval g' env' := by
  induction e with
  | literal value line => rfl
  | name x line => exact h x (List.mem_singleton.2 rfl) line
  | group inner line ih => exact ih h
  | unary op operand line ih => rw [eval, eval, ih h]
  | binary op left right line ihl ihr =>
    rw [reads, List.forall_mem_append] at h
    obtain ⟨hleft, hright⟩ := h
    rw [eval, eval, ← ihl hleft]
    cases hvalue : left.eval g env with
    | error fault => rfl
    | ok a =>
      rw [hvalue] at hright
      rw [ihr hright]
  | logical op left right line ihl ihr =>
    rw [reads, List.forall_mem_append] at h
    obtain ⟨hleft, hright⟩ := h
    rw [eval, eval, ← ihl hleft]
    cases hvalue : left.eval g env with
    | error fault => rfl
    | ok a =>
      rw [hvalue] at hright
      have hreached : ∀ x ∈ (if op.decidedBy a then [] else right.reads g env), ∀ line,
          resolve g env x line = resolve g' env' x line := hright
      show (if op.decidedBy a then Except.ok a else right.eval g env) =
        if op.decidedBy a then Except.ok a else right.eval g' env'
      split
      · rfl
      · rename_i hundecided
        rw [if_neg hundecided] at hreached
        exact ihr hreached

namespace Day

/-- The names that an expression reads on a day. -/
def reads (d : Day) (e : Expr) : List String :=
  e.reads d.rivers d.environment

/-- The day as the expression of an adjusted dam sees it, with `inflow` and `damLevel` bound to the
state of the river. -/
def adjusting (d : Day) (name : String) : Day :=
  { d with
    environment :=
      (d.environment.push.define "inflow" (.number (d.rivers.state name).inflow)).define
        "damLevel" (.number (d.rivers.state name).level) }

end Day

namespace Statement

/-- The names that a simple statement reads on a day, but for the river that the dam is on, which
is mentioned before its factor is computed. -/
def reads : Statement → Day → List String
  | expr e _, d => d.reads e
  | print e _, d => d.reads e
  | var _ (some e) _, d => d.reads e
  | river _ (some e) _, d => d.reads e
  | dam name (.adjusted e) _, d =>
    (((d.withRivers (d.rivers.mention name)).adjusting name).reads e).filter (· ≠ name)
  | _, _ => []

mutual

/-- The names that a statement reads on a day before a river of that name is mentioned, if the
program has mentioned some rivers before. -/
def unmentionedReads (before : List String) : Statement → Day → List String
  | block body _, d => unmentionedReadsAll before body d.opened
  | s, d => (s.reads d).filter (· ∉ before)

/-- The names that statements read on a day before a river of that name is mentioned. The statements
behind one that fails read nothing. -/
def unmentionedReadsAll (before : List String) : List Statement → Day → List String
  | [], _ => []
  | s :: ss, d =>
    s.unmentionedReads before d ++
      match (s.exec d).fault with
      | none => unmentionedReadsAll (before ++ s.simples.flatMap mentioned) ss (s.exec d).day
      | some _ => []

end

/-- Whatever a simple statement reads was mentioned before, or is read unmentioned. -/
theorem mem_unmentionedReads {s : Statement} (hblock : s.isBlock = false) {before : List String}
    {d : Day} {x : String} (hx : x ∈ s.reads d) :
    x ∈ before ∨ x ∈ s.unmentionedReads before d := by
  by_cases hbefore : x ∈ before
  · exact .inl hbefore
  · right
    have hfilter : s.unmentionedReads before d = (s.reads d).filter (· ∉ before) := by
      cases s with
      | block => cases hblock
      | _ => rw [unmentionedReads]; nofun
    rw [hfilter, List.mem_filter]
    exact ⟨hx, decide_eq_true hbefore⟩

end Statement

/-! ## Days that match -/

/-- Whether two days are the same but for the rivers they know, and know the same ones among the
settled names. -/
structure Day.Matches (settled : String → Prop) (d d' : Day) : Prop where
  rainfall : d.rainfall = d'.rainfall
  environment : d.environment = d'.environment
  sink : d.sink = d'.sink
  states : ∀ x, d.rivers.state x = d'.rivers.state x
  known : ∀ x, settled x → (x ∈ d.rivers.names ↔ x ∈ d'.rivers.names)

/-- Whether two outcomes have the same fault, on days that match. -/
def Day.Outcome.Matches (settled : String → Prop) (o o' : Outcome) : Prop :=
  o.fault = o'.fault ∧ o.day.Matches settled o'.day

/-- The days after the bodies of two blocks match when the scopes are closed, too. -/
theorem Day.Outcome.Matches.closed {settled : String → Prop} {o o' : Outcome}
    (h : o.Matches settled o') : o.closed.Matches settled o'.closed :=
  ⟨h.1, h.2.rainfall, congrArg Environment.pop h.2.environment, h.2.sink, h.2.states, h.2.known⟩

namespace Day.Matches

variable {settled settled' : String → Prop} {d d' : Day}

/-- Days that match for some settled names match for fewer of them. -/
theorem mono (h : d.Matches settled d') (hsettled : ∀ x, settled' x → settled x) :
    d.Matches settled' d' :=
  { h with known := fun x hx => h.known x (hsettled x hx) }

/-- Names of rivers that both days know are settled. -/
theorem settle (h : d.Matches settled d')
    (hboth : ∀ x, settled' x → settled x ∨ (x ∈ d.rivers.names ∧ x ∈ d'.rivers.names)) :
    d.Matches settled' d' := by
  refine { h with known := fun x hx => ?_ }
  rcases hboth x hx with hold | ⟨hfirst, hsecond⟩
  · exact h.known x hold
  · exact ⟨fun _ => hsecond, fun _ => hfirst⟩

/-- A settled name means the same on both days. -/
theorem resolve (h : d.Matches settled d') {x : String} (hx : settled x) (line : Nat) :
    Watershed.resolve d.rivers d.environment x line =
      Watershed.resolve d'.rivers d'.environment x line := by
  unfold Watershed.resolve
  by_cases hknown : x ∈ d.rivers.names
  · rw [Registry.get?_of_mem_names hknown, Registry.get?_of_mem_names ((h.known x hx).1 hknown),
      h.states]
  · have hknown' : x ∉ d'.rivers.names := fun hmem => hknown ((h.known x hx).2 hmem)
    rw [Registry.get?_of_not_mem_names hknown, Registry.get?_of_not_mem_names hknown',
      h.environment]

/-- An expression that reads settled names only has the same value on both days. -/
theorem eval (h : d.Matches settled d') {e : Expr} (hreads : ∀ x ∈ d.reads e, settled x) :
    d.eval e = d'.eval e :=
  Expr.eval_congr fun x hx line => h.resolve (hreads x hx) line

/-! ### Scopes and rivers -/

/-- The days match inside a block. -/
theorem opened (h : d.Matches settled d') : d.opened.Matches settled d'.opened :=
  { h with environment := congrArg Environment.push h.environment }

/-- Declaring a variable on both days keeps them matching. -/
theorem define (h : d.Matches settled d') (x : String) (v : Value) :
    Day.Matches settled { d with environment := d.environment.define x v }
      { d' with environment := d'.environment.define x v } :=
  { h with environment := congrArg (Environment.define · x v) h.environment }

/-- Putting a river into the same state on both days keeps them matching. -/
theorem put (h : d.Matches settled d') (x : String) (r : River) :
    (d.withRivers (d.rivers.put x r)).Matches settled
      (d'.withRivers (d'.rivers.put x r)) := by
  refine ⟨h.rainfall, h.environment, h.sink, ?_, ?_⟩
  · intro y
    show (d.rivers.put x r).state y = (d'.rivers.put x r).state y
    rw [Registry.state_put, Registry.state_put, h.states]
  · intro y hy
    show y ∈ (d.rivers.put x r).names ↔ y ∈ (d'.rivers.put x r).names
    rw [Registry.mem_names_put, Registry.mem_names_put, h.known y hy]

/-- Changing the state of a river on both days keeps them matching. -/
theorem update (h : d.Matches settled d') (x : String) (f : River → River) :
    (d.withRivers (d.rivers.update x f)).Matches settled
      (d'.withRivers (d'.rivers.update x f)) := by
  rw [Registry.update, Registry.update, h.states]
  exact h.put x _

/-- Mentioning a river on both days keeps them matching. -/
theorem mention (h : d.Matches settled d') (x : String) :
    (d.withRivers (d.rivers.mention x)).Matches settled
      (d'.withRivers (d'.rivers.mention x)) :=
  h.update x id

/-- Mentioning several rivers on both days keeps them matching. -/
theorem mentionAll (h : d.Matches settled d') (names : List String) :
    (d.withRivers (d.rivers.mentionAll names)).Matches settled
      (d'.withRivers (d'.rivers.mentionAll names)) := by
  induction names generalizing d d' with
  | nil => exact h
  | cons x names ih => exact ih (h.mention x)

/-! ### Statements -/

/-- Days that match go on matching. -/
theorem proceed (h : d.Matches settled d') : d.proceed.Matches settled d'.proceed :=
  ⟨rfl, h⟩

/-- What is done given the same value on both days keeps them matching. -/
theorem given {α : Type} (h : d.Matches settled d') (value : Except Fault α)
    {next next' : α → Outcome} (hnext : ∀ a, (next a).Matches settled (next' a)) :
    (d.given value next).Matches settled (d'.given value next') := by
  cases value with
  | ok a => exact hnext a
  | error fault => exact ⟨rfl, h⟩

/-- A line of output is taken or refused on both days alike. -/
theorem emit (h : d.Matches settled d') (text : String) (line : Nat) :
    (d.emit text line).Matches settled (d'.emit text line) := by
  have hwrite : d.sink.write (text ++ "\n") line = d'.sink.write (text ++ "\n") line := by
    rw [h.sink]
  exact ⟨congrArg Prod.snd hwrite, h.rainfall, h.environment, congrArg Prod.fst hwrite, h.states,
    h.known⟩

/-- An adjusted dam sees the same scopes on both days. -/
theorem adjusting (h : d.Matches settled d') (name : String) :
    (d.adjusting name).Matches settled (d'.adjusting name) := by
  refine { h with environment := ?_ }
  show (d.environment.push.define _ _).define _ _ = (d'.environment.push.define _ _).define _ _
  rw [h.environment, h.states]

/-- A dam is set to the same factor on both days, if all names that are read for it are settled,
its own river being known. -/
theorem setDam (h : d.Matches settled d') {name : String} {mode : DamMode} {line : Nat}
    (hreads : ∀ x ∈ (Statement.dam name mode line).reads d, settled x) :
    (d.setDam name mode line).Matches settled (d'.setDam name mode line) := by
  have hmention := h.mention name
  have hfactor : (d.withRivers (d.rivers.mention name)).damFactor name mode line =
      (d'.withRivers (d'.rivers.mention name)).damFactor name mode line := by
    cases mode with
    | opened => rfl
    | closed => rfl
    | adjusted e =>
      -- The river of the dam has just been mentioned, so its name is settled, too.
      have hsettled : ((d.withRivers (d.rivers.mention name)).adjusting name).Matches
          (fun x => settled x ∨ x = name)
          ((d'.withRivers (d'.rivers.mention name)).adjusting name) := by
        refine (hmention.adjusting name).settle fun x hx => hx.imp_right ?_
        rintro rfl
        exact ⟨Registry.mem_names_put.2 (.inr rfl), Registry.mem_names_put.2 (.inr rfl)⟩
      have heval := hsettled.eval (e := e) fun x hx => by
        by_cases hname : x = name
        · exact .inr hname
        · exact .inl (hreads x (List.mem_filter.2 ⟨hx, decide_eq_true hname⟩))
      exact congrArg (fun value => do (← value).asNumber "adjust" line) heval
  simp only [Day.setDam]
  rw [← hfactor, ← h.states, ← h.rainfall]
  refine hmention.given _ fun factor => hmention.given _ fun r => ?_
  exact (h.put name _).proceed

/-- A simple statement keeps days matching, if it reads settled names only. -/
theorem exec_simple (h : d.Matches settled d') {s : Statement} (hblock : s.isBlock = false)
    (hreads : ∀ x ∈ s.reads d, settled x) : (s.exec d).Matches settled (s.exec d') := by
  cases s with
  | block => cases hblock
  | expr e line =>
    rw [Statement.exec, Statement.exec, ← h.eval hreads]
    exact h.given _ fun _ => h.proceed
  | print e line =>
    rw [Statement.exec, Statement.exec, print, print, ← h.eval hreads]
    exact h.given _ fun value => h.emit value.printed line
  | var name initial line =>
    simp only [Statement.exec, declare]
    cases initial with
    | none => exact h.given _ fun value => (h.define name value).proceed
    | some e =>
      show (d.given (d.eval e) _).Matches settled (d'.given (d'.eval e) _)
      rw [← h.eval hreads]
      exact h.given _ fun value => (h.define name value).proceed
  | river name rate line =>
    have hset := fun flow => (h.update name (·.setOwn flow)).proceed
    simp only [Statement.exec, setRiver]
    cases rate with
    | none =>
      rw [← h.rainfall]
      exact h.given _ hset
    | some e =>
      show (d.given (do (← d.eval e).asNumber "river" line) _).Matches settled
        (d'.given (do (← d'.eval e).asNumber "river" line) _)
      rw [← h.eval hreads]
      exact h.given _ hset
  | output name line =>
    rw [Statement.exec, Statement.exec, output, output, ← h.states]
    exact (h.mention name).emit _ line
  | combine name sources line =>
    have htotal : d.rivers.totalOutflow sources = d'.rivers.totalOutflow sources :=
      Registry.totalOutflow_congr fun x _ => congrArg River.outflow (h.states x)
    rw [Statement.exec, Statement.exec, combine, combine, ← htotal]
    exact ((h.mentionAll sources).update name _).proceed
  | flow source target line =>
    rw [Statement.exec, Statement.exec, transfer, transfer, ← h.states]
    exact ((h.mention source).update target _).proceed
  | dam name mode line => exact h.setDam hreads

end Day.Matches

/-! ## Executions -/

/-- Executions keep days matching, if the names that are read before the program has mentioned them
are settled: a river that was mentioned is known to both days. -/
theorem matches_exec {settled : String → Prop} :
    (∀ (s : Statement) (before : List String) (d d' : Day),
      d.Matches (fun x => settled x ∨ x ∈ before) d' →
      (∀ x ∈ s.unmentionedReads before d, settled x) →
        (s.exec d).Matches (fun x => settled x ∨ x ∈ before) (s.exec d')) ∧
    ∀ (ss : List Statement) (before : List String) (d d' : Day),
      d.Matches (fun x => settled x ∨ x ∈ before) d' →
      (∀ x ∈ Statement.unmentionedReadsAll before ss d, settled x) →
        (Statement.execAll ss d).Matches (fun x => settled x ∨ x ∈ before)
          (Statement.execAll ss d') := by
  apply Statement.induction_lists
  case simple =>
    intro s hblock before d d' h hreads
    refine h.exec_simple hblock fun x hx => ?_
    exact (Statement.mem_unmentionedReads hblock hx).symm.imp_left (hreads x)
  case block =>
    intro body line ih before d d' h hreads
    rw [Statement.unmentionedReads] at hreads
    rw [Statement.exec_block, Statement.exec_block]
    exact (ih before d.opened d'.opened h.opened hreads).closed
  case nil =>
    intro before d d' h _
    exact h.proceed
  case cons =>
    intro s ss ih ihs before d d' h hreads
    rw [Statement.unmentionedReadsAll, List.forall_mem_append] at hreads
    obtain ⟨hfirst, hothers⟩ := hreads
    obtain ⟨hfault, hdays⟩ := ih before d d' h hfirst
    rw [Statement.execAll_cons, Statement.execAll_cons, Day.Outcome.andThen, Day.Outcome.andThen,
      ← hfault]
    cases hnone : (s.exec d).fault with
    | some fault => exact ⟨hfault, hdays⟩
    | none =>
      rw [hnone] at hothers
      -- From here on both days know the rivers that the first statement mentions.
      let mentioned := s.simples.flatMap Statement.mentioned
      have hknown : ∀ {day : Day}, (s.exec day).fault = none → ∀ x ∈ mentioned,
          x ∈ (s.exec day).day.rivers.names := by
        intro day hday x hx
        rw [Statement.names_exec hday]
        exact mem_addNames.2 (.inr hx)
      have hsettled : (s.exec d).day.Matches (fun x => settled x ∨ x ∈ before ++ mentioned)
          (s.exec d').day := by
        refine hdays.settle fun x hx => ?_
        rw [List.mem_append, ← or_assoc] at hx
        exact hx.imp_right fun hmem =>
          ⟨hknown hnone x hmem, hknown (hfault ▸ hnone) x hmem⟩
      obtain ⟨hfault', hdays'⟩ := ihs (before ++ mentioned) _ _ hsettled hothers
      exact ⟨hfault', hdays'.mono fun x hx => hx.imp_right (List.mem_append_left mentioned)⟩

/-- Days that begin with the same levels match, if the registries know the same rivers among the
settled names. -/
theorem Day.matches_start {settled : String → Prop} {g g' : Registry}
    (hlevel : ∀ x, (g.state x).level = (g'.state x).level)
    (hknown : ∀ x, settled x → (x ∈ g.names ↔ x ∈ g'.names)) (rainfall : Float) (number : Nat)
    (k : Sink) : (start g rainfall number k).Matches settled (start g' rainfall number k) := by
  refine ⟨rfl, rfl, rfl, ?_, ?_⟩
  · intro x
    show g.startDay.state x = g'.startDay.state x
    rw [Registry.state_startDay, Registry.state_startDay, River.startDay, River.startDay, hlevel]
  · intro x hx
    show x ∈ g.startDay.names ↔ x ∈ g'.startDay.names
    rw [Registry.names_startDay, Registry.names_startDay]
    exact hknown x hx

end Watershed
