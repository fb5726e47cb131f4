import Watershed.Proofs.Resemblance
import Watershed.Proofs.Scopes

/-!
# What an execution depends on

An execution depends on no more than the rainfall, the sink, and what the names in its statements
stand for: the variables of these names, and the rivers of these names in their order. Two days
that agree in that much go the same way, whatever else their scopes bind and whatever other rivers
they know. A block, which only adds a scope without bindings, therefore goes the way of its body.
-/

set_option autoImplicit false

namespace Watershed

/-! ## The rivers of interest -/

namespace Registry

/-- The rivers whose names are of interest, in their order. -/
def only (p : String → Bool) (g : Registry) : List (String × River) :=
  g.entries.filter fun e => p e.1

/-- Putting a river of interest puts it among the rivers of interest. -/
theorem filter_putEntry_of_pos {p : String → Bool} {name : String} (hname : p name = true)
    (r : River) (es : List (String × River)) :
    (putEntry name r es).filter (fun e => p e.1) =
      putEntry name r (es.filter fun e => p e.1) := by
  induction es with
  | nil => simp [putEntry, hname]
  | cons e es ih =>
    rw [putEntry]
    by_cases he : e.1 = name
    · simp [putEntry, he, hname]
    · by_cases hp : p e.1 = true
      · simp [putEntry, he, hp, ih]
      · simp [he, hp, ih]

/-- Putting a river of no interest leaves the rivers of interest as they are. -/
theorem filter_putEntry_of_neg {p : String → Bool} {name : String} (hname : p name = false)
    (r : River) (es : List (String × River)) :
    (putEntry name r es).filter (fun e => p e.1) = es.filter fun e => p e.1 := by
  induction es with
  | nil => simp [putEntry, hname]
  | cons e es ih =>
    rw [putEntry]
    by_cases he : e.1 = name
    · simp [he, hname]
    · simp [he, List.filter_cons, ih]

/-- Putting a river of interest into a registry puts it among its rivers of interest. -/
theorem only_put_of_pos {p : String → Bool} {name : String} (hname : p name = true) (r : River)
    (g : Registry) : (g.put name r).only p = putEntry name r (g.only p) :=
  filter_putEntry_of_pos hname r g.entries

/-- Putting a river of no interest into a registry leaves its rivers of interest as they are. -/
theorem only_put_of_neg {p : String → Bool} {name : String} (hname : p name = false) (r : River)
    (g : Registry) : (g.put name r).only p = g.only p :=
  filter_putEntry_of_neg hname r g.entries

/-- A river of interest is found among the rivers of interest. -/
theorem get?_eq_find?_only {p : String → Bool} {name : String} (hname : p name = true)
    (g : Registry) : g.get? name = ((g.only p).find? (·.1 = name)).map Prod.snd := by
  have hsame : ∀ e : String × River,
      decide (p e.1 = true ∧ decide (e.1 = name) = true) = decide (e.1 = name) := by
    intro e
    by_cases he : e.1 = name
    · simp [he, hname]
    · simp [he]
  rw [get?, only, List.find?_filter, funext hsame]

/-- Registries with the same rivers of interest find the same ones among them. -/
theorem get?_eq_of_only {p : String → Bool} {g g' : Registry} (h : g.only p = g'.only p)
    {name : String} (hname : p name = true) : g.get? name = g'.get? name := by
  rw [get?_eq_find?_only hname, get?_eq_find?_only hname, h]

/-- If all names are of interest, then so are all rivers. -/
theorem eq_of_only {g g' : Registry} (h : g.only (fun _ => true) = g'.only fun _ => true) :
    g = g' := by
  obtain ⟨entries, nodup⟩ := g
  obtain ⟨entries', nodup'⟩ := g'
  rw [only, only, List.filter_eq_self.2 fun _ _ => rfl, List.filter_eq_self.2 fun _ _ => rfl] at h
  obtain rfl : entries = entries' := h
  rfl

end Registry

/-! ## Days that are alike -/

/-- The names that stand directly in a statement, of whatever they are. -/
def Statement.uses (s : Statement) : List String :=
  s.mentioned ++ s.declared ++ s.expressions.flatMap Expr.names

/-- The rivers that a statement mentions stand in it. -/
theorem Statement.mem_uses_of_mentioned {s : Statement} {x : String} (h : x ∈ s.mentioned) :
    x ∈ s.uses :=
  List.mem_append_left _ (List.mem_append_left _ h)

/-- The names in the expressions of a statement stand in it. -/
theorem Statement.mem_uses_of_expressions {s : Statement} {e : Expr} {x : String}
    (he : e ∈ s.expressions) (hx : x ∈ e.names) : x ∈ s.uses :=
  List.mem_append_right _ (List.mem_flatMap.2 ⟨e, he, hx⟩)

/-- Whether two days agree in the rainfall, the sink, and the variables and rivers whose names are
of interest. -/
structure Day.Alike (p : String → Bool) (d d' : Day) : Prop where
  rainfall : d.rainfall = d'.rainfall
  sink : d.sink = d'.sink
  lookup : ∀ x, p x = true → d.environment.lookup x = d'.environment.lookup x
  rivers : d.rivers.only p = d'.rivers.only p

/-- Whether two outcomes have the same fault on days that are alike. -/
def Day.Outcome.Alike (p : String → Bool) (o o' : Outcome) : Prop :=
  o.fault = o'.fault ∧ o.day.Alike p o'.day

namespace Day.Alike

variable {p : String → Bool} {d d' : Day}

/-- A river of interest is in the same state on both days. -/
theorem state (h : d.Alike p d') {x : String} (hx : p x = true) :
    d.rivers.state x = d'.rivers.state x := by
  rw [Registry.state, Registry.state, Registry.get?_eq_of_only h.rivers hx]

/-- An expression that uses names of interest only has the same value on both days. -/
theorem eval (h : d.Alike p d') {e : Expr} (he : ∀ x ∈ e.names, p x = true) :
    d.eval e = d'.eval e := by
  refine Agree.eq_of_nil (Agree.eval fun x hx line => .inl ?_)
  rw [resolve, resolve, Registry.get?_eq_of_only h.rivers (he x hx), Environment.get,
    Environment.get, h.lookup x (he x hx)]

/-- Declaring a variable on both days keeps them alike. -/
theorem define (h : d.Alike p d') (x : String) (value : Value) :
    Day.Alike p { d with environment := d.environment.define x value }
      { d' with environment := d'.environment.define x value } := by
  refine ⟨h.rainfall, h.sink, fun y hy => ?_, h.rivers⟩
  show (d.environment.define x value).lookup y = (d'.environment.define x value).lookup y
  rw [Environment.lookup_define, Environment.lookup_define, h.lookup y hy]

/-- The days are alike inside a block. -/
theorem opened (h : d.Alike p d') : d.opened.Alike p d'.opened :=
  ⟨h.rainfall, h.sink, h.lookup, h.rivers⟩

/-- Putting a river of interest into the same state on both days keeps them alike. -/
theorem put (h : d.Alike p d') {x : String} (hx : p x = true) (r : River) :
    (d.withRivers (d.rivers.put x r)).Alike p (d'.withRivers (d'.rivers.put x r)) := by
  refine ⟨h.rainfall, h.sink, h.lookup, ?_⟩
  show (d.rivers.put x r).only p = (d'.rivers.put x r).only p
  rw [Registry.only_put_of_pos hx, Registry.only_put_of_pos hx, h.rivers]

/-- Changing a river of interest on both days keeps them alike. -/
theorem update (h : d.Alike p d') {x : String} (hx : p x = true) (f : River → River) :
    (d.withRivers (d.rivers.update x f)).Alike p (d'.withRivers (d'.rivers.update x f)) := by
  rw [Registry.update, Registry.update, ← h.state hx]
  exact h.put hx _

/-- Mentioning rivers of interest on both days keeps them alike. -/
theorem mentionAll (h : d.Alike p d') {names : List String} (hnames : ∀ x ∈ names, p x = true) :
    (d.withRivers (d.rivers.mentionAll names)).Alike p
      (d'.withRivers (d'.rivers.mentionAll names)) := by
  induction names generalizing d d' with
  | nil => exact h
  | cons x names ih =>
    rw [List.forall_mem_cons] at hnames
    exact ih (h.update hnames.1 id) hnames.2

/-! ### Statements -/

/-- What is done given the same value on both days keeps them alike. -/
theorem given {α : Type} (h : d.Alike p d') (value : Except Fault α) {next next' : α → Outcome}
    (hnext : ∀ a, (next a).Alike p (next' a)) :
    (d.given value next).Alike p (d'.given value next') := by
  cases value with
  | ok a => exact hnext a
  | error fault => exact ⟨rfl, h⟩

/-- A line of output is taken or refused on both days alike. -/
theorem emit (h : d.Alike p d') (text : String) (line : Nat) :
    (d.emit text line).Alike p (d'.emit text line) := by
  have hwrite : d.sink.write (text ++ "\n") line = d'.sink.write (text ++ "\n") line := by
    rw [h.sink]
  exact ⟨congrArg Prod.snd hwrite, h.rainfall, congrArg Prod.fst hwrite, h.lookup, h.rivers⟩

/-- A dam is set to the same factor on both days, if the names in its statement are of interest. -/
theorem damFactor (h : d.Alike p d') {name : String} {mode : DamMode} {line : Nat}
    (hs : ∀ x ∈ (Statement.dam name mode line).uses, p x = true) :
    d.damFactor name mode line = d'.damFactor name mode line := by
  cases mode with
  | opened => rfl
  | closed => rfl
  | adjusted e =>
    have hname : p name = true := hs name (Statement.mem_uses_of_mentioned (.head _))
    have he : ∀ x ∈ e.names, p x = true := fun x hx =>
      hs x (Statement.mem_uses_of_expressions (.head _) hx)
    have hscope := (h.opened.define "inflow" (.number (d.rivers.state name).inflow)).define
      "damLevel" (.number (d.rivers.state name).level)
    have hvalue := hscope.eval he
    unfold Day.eval at hvalue
    simp only [Day.damFactor, ← h.state hname]
    exact congrArg (· >>= fun value => value.asNumber "adjust" line) hvalue

/-- Setting a dam keeps the days alike, if the names in its statement are of interest. -/
theorem setDam (h : d.Alike p d') {name : String} {mode : DamMode} {line : Nat}
    (hs : ∀ x ∈ (Statement.dam name mode line).uses, p x = true) :
    (d.setDam name mode line).Alike p (d'.setDam name mode line) := by
  have hname : p name = true := hs name (Statement.mem_uses_of_mentioned (.head _))
  have hmention := h.update hname id
  unfold Day.setDam
  simp only [← h.state hname, ← h.rainfall]
  have hfactor : (d.withRivers (d.rivers.mention name)).damFactor name mode line =
      (d'.withRivers (d'.rivers.mention name)).damFactor name mode line := hmention.damFactor hs
  rw [← hfactor]
  refine hmention.given _ fun factor => ?_
  exact hmention.given _ fun r => ⟨rfl, h.put hname _⟩

/-- A simple statement keeps the days alike, if the names in it are of interest. -/
theorem exec_simple (h : d.Alike p d') {s : Statement} (hblock : s.isBlock = false)
    (hs : ∀ x ∈ s.uses, p x = true) : (s.exec d).Alike p (s.exec d') := by
  have hmentioned : ∀ x ∈ s.mentioned, p x = true := fun x hx =>
    hs x (Statement.mem_uses_of_mentioned hx)
  have heval : ∀ e ∈ s.expressions, d.eval e = d'.eval e := fun e he =>
    h.eval fun x hx => hs x (Statement.mem_uses_of_expressions he hx)
  cases s with
  | block => cases hblock
  | expr e line =>
    rw [Statement.exec, Statement.exec, heval e (List.mem_singleton.2 rfl)]
    exact h.given _ fun _ => ⟨rfl, h⟩
  | print e line =>
    rw [Statement.exec, Statement.exec, print, print, heval e (List.mem_singleton.2 rfl)]
    exact h.given _ fun value => h.emit value.printed line
  | var name initial line =>
    have hdefine := fun value => h.define name value
    cases initial with
    | none => exact ⟨rfl, hdefine .nil⟩
    | some e =>
      simp only [Statement.exec, declare, heval e (List.mem_singleton.2 rfl)]
      exact h.given _ fun value => ⟨rfl, hdefine value⟩
  | river name rate line =>
    have hset := fun flow => h.update (hmentioned name (List.mem_singleton.2 rfl)) (·.setOwn flow)
    cases rate with
    | none =>
      simp only [Statement.exec, setRiver, h.rainfall]
      exact h.given _ fun flow => ⟨rfl, hset flow⟩
    | some e =>
      simp only [Statement.exec, setRiver, heval e (List.mem_singleton.2 rfl)]
      exact h.given _ fun flow => ⟨rfl, hset flow⟩
  | output name line =>
    have hname := hmentioned name (List.mem_singleton.2 rfl)
    rw [Statement.exec, Statement.exec, output, output, ← h.state hname]
    exact (h.update hname id).emit _ line
  | combine name sources line =>
    have hsources : ∀ x ∈ sources, p x = true := fun x hx =>
      hmentioned x (List.mem_append_left _ hx)
    have hname : p name = true :=
      hmentioned name (List.mem_append_right _ (List.mem_singleton.2 rfl))
    have htotal : d.rivers.totalOutflow sources = d'.rivers.totalOutflow sources :=
      Registry.totalOutflow_congr fun x hx => by rw [h.state (hsources x hx)]
    rw [Statement.exec, Statement.exec, combine, combine, htotal]
    exact ⟨rfl, (h.mentionAll hsources).update hname _⟩
  | flow source target line =>
    have hsource : p source = true := hmentioned source (by simp [Statement.mentioned])
    have htarget : p target = true := hmentioned target (by simp [Statement.mentioned])
    rw [Statement.exec, Statement.exec, transfer, transfer, ← h.state hsource]
    exact ⟨rfl, (h.update hsource id).update htarget _⟩
  | dam name mode line => exact h.setDam hs

end Day.Alike

/-- Days that are alike as far as the names in some statements go stay so along their execution. -/
theorem alike_exec {p : String → Bool} :
    (∀ s : Statement, (∀ t ∈ s.simples, ∀ x ∈ t.uses, p x = true) →
      ∀ d d' : Day, d.Alike p d' → (s.exec d).Alike p (s.exec d')) ∧
    ∀ ss : List Statement, (∀ t ∈ Statement.simplesAll ss, ∀ x ∈ t.uses, p x = true) →
      ∀ d d' : Day, d.Alike p d' →
        (Statement.execAll ss d).Alike p (Statement.execAll ss d') := by
  obtain ⟨hexec, hexecAll⟩ := Statement.related_exec
    (P := fun s => ∀ x ∈ s.uses, p x = true) (R := Day.Alike p) (E := fun _ => False)
    (fun s hblock hs d d' h => .inl (h.exec_simple hblock hs)) (fun d d' h => h.opened)
    fun d d' e e' h he => ⟨he.rainfall, he.sink, h.lookup, he.rivers⟩
  have hsame : ∀ {o o' : Day.Outcome}, o.Related (Day.Alike p) (fun _ => False) o' →
      o.Alike p o' := by
    rintro o o' (hboth | ⟨fault, -, hfalse⟩)
    · exact hboth
    · exact hfalse.elim
  exact ⟨fun s hs d d' h => hsame (hexec s hs d d' h),
    fun ss hss d d' h => hsame (hexecAll ss hss d d' h)⟩

/-! ## Blocks -/

namespace Statement

/-- A block goes the way of its body. Executed on the same day, they have the same fault, write the
same and leave the same rivers in the same order. They differ only in the scopes: the block leaves
all of them as they were, while its body, without the block around it, may bind names in the
innermost scope that it declares outside of the blocks in it. -/
theorem block_like_body (ss : List Statement) (line : Nat) (d : Day) :
    ((block ss line).exec d).fault = (execAll ss d).fault ∧
    ((block ss line).exec d).day.sink = (execAll ss d).day.sink ∧
    ((block ss line).exec d).day.rivers = (execAll ss d).day.rivers ∧
    ((block ss line).exec d).day.rainfall = (execAll ss d).day.rainfall ∧
    ((block ss line).exec d).day.environment = d.environment ∧
    (execAll ss d).day.environment.enclosing = d.environment.enclosing ∧
    ∀ name, (∀ initial line, var name initial line ∉ ss) →
      (execAll ss d).day.environment.innermost name = d.environment.innermost name := by
  have hopened : d.opened.Alike (fun _ => true) d := ⟨rfl, rfl, fun _ _ => rfl, rfl⟩
  obtain ⟨hfault, halike⟩ := alike_exec.2 ss (fun _ _ _ _ => rfl) d.opened d hopened
  refine ⟨?_, ?_, ?_, ?_, environment_exec_block ss line d, enclosing_exec.2 ss d,
    fun name hname => innermost_execAll d hname⟩
  · rw [exec_block]
    exact hfault
  · rw [exec_block]
    exact halike.sink
  · rw [exec_block]
    exact Registry.eq_of_only halike.rivers
  · rw [exec_block]
    exact halike.rainfall

/-- A body that declares `day` anew in terms of itself and fails after it has shown a river: only
without the block is the new `day` there to stay. -/
theorem block_like_body_redeclared :
    let d := Day.start (Registry.empty.put "A" { level := 4.0 }) 2.0 1 Sink.unlimited
    let ss := [var "day" (some (.binary .add (.name "day" 2) (.name "rainfall" 2) 2)) 2,
      block [var "rainfall" none 3, dam "A" (.adjusted (.name "damLevel" 4)) 4] 3,
      output "B" 5, print (.name "missing" 6) 6]
    ((block ss 1).exec d).fault = some (.undefinedName "missing" 6) ∧
      ((block ss 1).exec d).day.sink = (execAll ss d).day.sink ∧
      ((block ss 1).exec d).day.rivers = (execAll ss d).day.rivers ∧
      ((block ss 1).exec d).day.environment.lookup "day" = some (.number 1.0) ∧
      (execAll ss d).day.environment.lookup "day" = some (.number 3.0) ∧
      (execAll ss d).day.environment.innermost "rainfall" =
        d.environment.innermost "rainfall" := by
  intro d ss
  have hfailed : (execAll ss d).fault = some (.undefinedName "missing" 6) := by decide +kernel
  have hbound : (execAll ss d).day.environment.lookup "day" = some (.number 3.0) := by
    decide +kernel
  obtain ⟨hfault, hsink, hrivers, -, henv, -, hinnermost⟩ := block_like_body ss 1 d
  refine ⟨hfault.trans hfailed, hsink, hrivers, ?_, hbound, ?_⟩
  · rw [henv]
    decide +kernel
  · exact hinnermost "rainfall" (by simp [ss])

end Statement

end Watershed
