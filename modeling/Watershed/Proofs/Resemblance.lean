import Watershed.Proofs.Mentions

/-!
# Days that resemble each other

Two executions of the same program are compared, given the names that its expressions use. The
days agree in their rainfall, their sink, the variables in use, and the flows and the dam of every
river; they agree in the levels if expressions can see levels. A river in use that the first day
knows is known to the second. The second may also know rivers from a list of hidden ones, which
are no variables of the first. Statements keep the resemblance, or else the first day stops because
it does not know a hidden river.
-/

set_option autoImplicit false

namespace Watershed

/-! ## Rivers -/

/-- Whether two states of a river have the same flows and the same dam. -/
structure River.SameFlows (r r' : River) : Prop where
  own : r.own = r'.own
  incoming : r.incoming = r'.incoming
  factor : r.factor = r'.factor

namespace River.SameFlows

variable {r r' : River}

/-- The same flows make for the same inflow. -/
theorem inflow (h : r.SameFlows r') : r.inflow = r'.inflow := by
  rw [River.inflow, River.inflow, h.own, h.incoming]

/-- The same flows and the same dam make for the same outflow. -/
theorem outflow (h : r.SameFlows r') : r.outflow = r'.outflow := by
  rw [River.outflow, River.outflow, h.inflow, h.factor]

/-- Setting what two rivers bring to the same flow keeps their flows the same. -/
theorem setOwn (h : r.SameFlows r') (flow : Float) : (r.setOwn flow).SameFlows (r'.setOwn flow) :=
  ⟨rfl, h.incoming, h.factor⟩

/-- Passing the same flow on to two rivers keeps their flows the same. -/
theorem receive (h : r.SameFlows r') (flow : Float) :
    (r.receive flow).SameFlows (r'.receive flow) :=
  ⟨h.own, congrArg (· + flow) h.incoming, h.factor⟩

/-- Setting two dams to the same factor keeps the flows the same, whatever the levels change by. -/
theorem dammed (h : r.SameFlows r') (factor change change' : Float) :
    (({ r with factor := factor } : River).raise change).SameFlows
      (({ r' with factor := factor } : River).raise change') :=
  ⟨h.own, h.incoming, rfl⟩

end River.SameFlows

/-! ## Values -/

/-- Whether a fault is that a hidden river is not known. -/
def Fault.Misses (hidden : List String) (fault : Fault) : Prop :=
  ∃ x ∈ hidden, ∃ line, fault = .undefinedName x line

/-- Whether two values are the same, or else the first cannot be had because a hidden river is not
known. -/
def Agree (hidden : List String) {α : Type} (value value' : Except Fault α) : Prop :=
  value = value' ∨ ∃ fault, value = .error fault ∧ fault.Misses hidden

namespace Agree

variable {hidden : List String} {α β : Type}

/-- Every value agrees with itself. -/
theorem refl (value : Except Fault α) : Agree hidden value value :=
  .inl rfl

/-- Steps in a row have values that agree if each step does. -/
theorem bind {value value' : Except Fault α} (h : Agree hidden value value')
    {next next' : α → Except Fault β} (hnext : ∀ a, Agree hidden (next a) (next' a)) :
    Agree hidden (value >>= next) (value' >>= next') := by
  rcases h with rfl | ⟨fault, rfl, hmisses⟩
  · cases value with
    | error fault => exact refl _
    | ok a => exact hnext a
  · exact .inr ⟨fault, rfl, hmisses⟩

/-- Expressions have values that agree if the names in them do. -/
theorem eval {g g' : Registry} {env env' : Environment} {e : Expr}
    (h : ∀ x ∈ e.names, ∀ line, Agree hidden (resolve g env x line) (resolve g' env' x line)) :
    Agree hidden (e.eval g env) (e.eval g' env') := by
  induction e with
  | literal value line => exact refl _
  | name x line => exact h x (List.mem_singleton.2 rfl) line
  | group inner line ih => exact ih h
  | unary op operand line ih => exact (ih h).bind fun _ => refl _
  | binary op left right line ihl ihr =>
    obtain ⟨hleft, hright⟩ := List.forall_mem_append.1 h
    exact (ihl hleft).bind fun _ => (ihr hright).bind fun _ => refl _
  | logical op left right line ihl ihr =>
    obtain ⟨hleft, hright⟩ := List.forall_mem_append.1 h
    refine (ihl hleft).bind fun a => ?_
    split
    · exact refl _
    · exact ihr hright

/-- Without hidden rivers, values that agree are the same. -/
theorem eq_of_nil {value value' : Except Fault α} (h : Agree [] value value') : value = value' := by
  rcases h with heq | ⟨fault, -, x, hx, -⟩
  · exact heq
  · cases hx

end Agree

/-! ## Statements that fit -/

/-- Whether simple statements use no names but the given ones in their expressions, and bind none
of them that is hidden. -/
structure Fits (used hidden : List String) (simples : List Statement) : Prop where
  uses : ∀ s ∈ simples, ∀ e ∈ s.expressions, ∀ x ∈ e.names, x ∈ used
  declares : ∀ s ∈ simples, ∀ x ∈ s.declared, x ∈ used → x ∉ hidden
  adjusts : ∀ x ∈ ["inflow", "damLevel"], x ∈ used → x ∉ hidden

/-- Fewer statements fit if all of them do. -/
theorem Fits.of_subset {used hidden : List String} {simples simples' : List Statement}
    (h : Fits used hidden simples) (hsubset : ∀ s ∈ simples', s ∈ simples) :
    Fits used hidden simples' :=
  ⟨fun s hs => h.uses s (hsubset s hs), fun s hs => h.declares s (hsubset s hs), h.adjusts⟩

/-- A program fits the names that it uses, if it declares no hidden ones. -/
theorem fits_namesUsedBy {program : List Statement} {hidden : List String}
    (hdeclares : ∀ x ∈ variablesOf program, x ∉ hidden)
    (hadjusts : ∀ x ∈ ["inflow", "damLevel"], x ∈ namesUsedBy program → x ∉ hidden) :
    Fits (namesUsedBy program) hidden (Statement.simplesAll program) := by
  refine ⟨?_, ?_, hadjusts⟩
  · intro s hs e he x hx
    exact List.mem_flatMap.2 ⟨s, hs, List.mem_flatMap.2 ⟨e, he, hx⟩⟩
  · intro s hs x hx _
    exact hdeclares x (List.mem_flatMap.2 ⟨s, hs, hx⟩)

/-! ## Days -/

/-- Whether two days look the same to expressions that use some names, but for hidden rivers that
only the second day knows. -/
structure Day.Resembles (used hidden : List String) (d d' : Day) : Prop where
  rainfall : d.rainfall = d'.rainfall
  sink : d.sink = d'.sink
  lookup : ∀ x ∈ used, d.environment.lookup x = d'.environment.lookup x
  unbound : ∀ x ∈ used, x ∈ hidden → d.environment.lookup x = none
  flows : ∀ x, (d.rivers.state x).SameFlows (d'.rivers.state x)
  levels : "damLevel" ∈ used → ∀ x, (d.rivers.state x).level = (d'.rivers.state x).level
  known : ∀ x ∈ used, x ∈ d.rivers.names → x ∈ d'.rivers.names
  revealed : ∀ x ∈ used, x ∈ d'.rivers.names → x ∈ d.rivers.names ∨ x ∈ hidden

/-- Whether two outcomes have the same fault on days that resemble each other, or else the first
day was stopped because a hidden river is not known. -/
def Day.Outcome.Resembles (used hidden : List String) (o o' : Outcome) : Prop :=
  (o.fault = o'.fault ∧ o.day.Resembles used hidden o'.day) ∨
    ∃ fault, o.fault = some fault ∧ fault.Misses hidden

namespace Day.Resembles

variable {used hidden : List String} {d d' : Day}

/-- A name in use means the same on both days, unless it is a hidden river. -/
theorem resolve (h : d.Resembles used hidden d') {x : String} (hx : x ∈ used) (line : Nat) :
    Agree hidden (Watershed.resolve d.rivers d.environment x line)
      (Watershed.resolve d'.rivers d'.environment x line) := by
  unfold Watershed.resolve
  by_cases hknown : x ∈ d.rivers.names
  · rw [Registry.get?_of_mem_names hknown, Registry.get?_of_mem_names (h.known x hx hknown)]
    left
    show Except.ok (Value.number _) = Except.ok (Value.number _)
    rw [(h.flows x).outflow]
  · rw [Registry.get?_of_not_mem_names hknown]
    by_cases hknown' : x ∈ d'.rivers.names
    · -- Only the second day knows the river, so the first finds no variable of that name either.
      right
      have hhidden : x ∈ hidden := (h.revealed x hx hknown').resolve_left hknown
      refine ⟨.undefinedName x line, ?_, x, hhidden, line, rfl⟩
      simp only [Environment.get, h.unbound x hx hhidden]
    · rw [Registry.get?_of_not_mem_names hknown']
      left
      simp only [Environment.get, h.lookup x hx]

/-- An expression has values that agree on both days, if its names are in use. -/
theorem eval (h : d.Resembles used hidden d') {e : Expr} (he : ∀ x ∈ e.names, x ∈ used) :
    Agree hidden (d.eval e) (d'.eval e) :=
  Agree.eval fun x hx line => h.resolve (he x hx) line

/-! ### Scopes and rivers -/

/-- Declaring a variable that is no hidden river keeps the days resembling each other. -/
theorem define (h : d.Resembles used hidden d') (x : String) (v v' : Value)
    (hv : x ∈ used → x ∉ hidden ∧ v = v') :
    Day.Resembles used hidden { d with environment := d.environment.define x v }
      { d' with environment := d'.environment.define x v' } := by
  refine ⟨h.rainfall, h.sink, ?_, ?_, h.flows, h.levels, h.known, h.revealed⟩
  · intro y hy
    show (d.environment.define x v).lookup y = (d'.environment.define x v').lookup y
    rw [Environment.lookup_define, Environment.lookup_define]
    split
    · rename_i heq
      rw [(hv (heq ▸ hy)).2]
    · exact h.lookup y hy
  · intro y hy hhidden
    show (d.environment.define x v).lookup y = none
    rw [Environment.lookup_define]
    split
    · rename_i heq
      exact absurd (heq ▸ hhidden) (hv (heq ▸ hy)).1
    · exact h.unbound y hy hhidden

/-- The days resemble each other inside a block. -/
theorem opened (h : d.Resembles used hidden d') : d.opened.Resembles used hidden d'.opened :=
  ⟨h.rainfall, h.sink, h.lookup, h.unbound, h.flows, h.levels, h.known, h.revealed⟩

/-- Putting a river into states with the same flows keeps the days resembling each other. -/
theorem put (h : d.Resembles used hidden d') (x : String) (r r' : River) (hflows : r.SameFlows r')
    (hlevel : "damLevel" ∈ used → r.level = r'.level) :
    (d.withRivers (d.rivers.put x r)).Resembles used hidden
      (d'.withRivers (d'.rivers.put x r')) := by
  refine ⟨h.rainfall, h.sink, h.lookup, h.unbound, ?_, ?_, ?_, ?_⟩
  · intro y
    show ((d.rivers.put x r).state y).SameFlows ((d'.rivers.put x r').state y)
    rw [Registry.state_put, Registry.state_put]
    split
    · exact hflows
    · exact h.flows y
  · intro hused y
    show ((d.rivers.put x r).state y).level = ((d'.rivers.put x r').state y).level
    rw [Registry.state_put, Registry.state_put]
    split
    · exact hlevel hused
    · exact h.levels hused y
  · intro y hy hknown
    rcases Registry.mem_names_put.1 hknown with hold | hnew
    · exact Registry.mem_names_put.2 (.inl (h.known y hy hold))
    · exact Registry.mem_names_put.2 (.inr hnew)
  · intro y hy hknown
    rcases Registry.mem_names_put.1 hknown with hold | hnew
    · exact (h.revealed y hy hold).imp_left fun hboth => Registry.mem_names_put.2 (.inl hboth)
    · exact .inl (Registry.mem_names_put.2 (.inr hnew))

/-- Mentioning a river on both days keeps them resembling each other. -/
theorem mention (h : d.Resembles used hidden d') (x : String) :
    (d.withRivers (d.rivers.mention x)).Resembles used hidden
      (d'.withRivers (d'.rivers.mention x)) :=
  h.put x _ _ (h.flows x) fun hused => h.levels hused x

/-- Mentioning rivers on both days keeps them resembling each other. -/
theorem mentionAll (h : d.Resembles used hidden d') (names : List String) :
    (d.withRivers (d.rivers.mentionAll names)).Resembles used hidden
      (d'.withRivers (d'.rivers.mentionAll names)) := by
  induction names generalizing d d' with
  | nil => exact h
  | cons x names ih => exact ih (h.mention x)

/-! ### Statements -/

/-- Days that resemble each other go on doing so. -/
theorem proceed (h : d.Resembles used hidden d') :
    d.proceed.Resembles used hidden d'.proceed :=
  .inl ⟨rfl, h⟩

/-- What is done given values that agree keeps the days resembling each other, or stops the first.
-/
theorem given {α : Type} (h : d.Resembles used hidden d') {value value' : Except Fault α}
    (hvalue : Agree hidden value value') {next next' : α → Outcome}
    (hnext : ∀ a, (next a).Resembles used hidden (next' a)) :
    (d.given value next).Resembles used hidden (d'.given value' next') := by
  rcases hvalue with rfl | ⟨fault, rfl, hmisses⟩
  · cases value with
    | ok a => exact hnext a
    | error fault => exact .inl ⟨rfl, h⟩
  · exact .inr ⟨fault, rfl, hmisses⟩

/-- A line of output is taken or refused on both days alike. -/
theorem emit (h : d.Resembles used hidden d') (text : String) (line : Nat) :
    (d.emit text line).Resembles used hidden (d'.emit text line) := by
  left
  have hwrite : d.sink.write (text ++ "\n") line = d'.sink.write (text ++ "\n") line := by
    rw [h.sink]
  refine ⟨congrArg Prod.snd hwrite, ?_⟩
  exact ⟨h.rainfall, congrArg Prod.fst hwrite, h.lookup, h.unbound, h.flows, h.levels, h.known,
    h.revealed⟩

/-- The factors that a dam is set to on both days agree. -/
theorem damFactor (h : d.Resembles used hidden d') {name : String} {mode : DamMode} {line : Nat}
    (hfits : Fits used hidden [.dam name mode line]) :
    Agree hidden (d.damFactor name mode line) (d'.damFactor name mode line) := by
  cases mode with
  | opened => exact Agree.refl _
  | closed => exact Agree.refl _
  | adjusted e =>
    have hinflow : (d.rivers.state name).inflow = (d'.rivers.state name).inflow :=
      (h.flows name).inflow
    have hscope := h.opened.define "inflow" (.number (d.rivers.state name).inflow)
      (.number (d'.rivers.state name).inflow) fun hused =>
        ⟨hfits.adjusts _ (by simp) hused, congrArg Value.number hinflow⟩
    have hboth := hscope.define "damLevel" (.number (d.rivers.state name).level)
      (.number (d'.rivers.state name).level) fun hused =>
        ⟨hfits.adjusts _ (by simp) hused, congrArg Value.number (h.levels hused name)⟩
    have he : ∀ x ∈ e.names, x ∈ used :=
      hfits.uses _ (List.mem_singleton.2 rfl) e (List.mem_singleton.2 rfl)
    exact (hboth.eval he).bind fun _ => Agree.refl _

/-- Setting a dam keeps the days resembling each other, or stops the first. -/
theorem setDam (h : d.Resembles used hidden d') {name : String} {mode : DamMode} {line : Nat}
    (hfits : Fits used hidden [.dam name mode line]) :
    (d.setDam name mode line).Resembles used hidden (d'.setDam name mode line) := by
  unfold Day.setDam
  refine (h.mention name).given ((h.mention name).damFactor hfits) fun factor => ?_
  have hlevel : "damLevel" ∈ used →
      River.aboveZero ((d.rivers.state name).level +
        levelChange d.rainfall (d.rivers.state name) factor) =
      River.aboveZero ((d'.rivers.state name).level +
        levelChange d'.rainfall (d'.rivers.state name) factor) := by
    intro hused
    rw [h.levels hused name, h.rainfall, levelChange, levelChange, (h.flows name).inflow]
  unfold River.setFactor
  split
  · rw [given_ok, given_ok]
    exact (h.put name _ _ ((h.flows name).dammed factor _ _) hlevel).proceed
  · rw [given_error, given_error]
    exact .inl ⟨rfl, h.mention name⟩

/-- A simple statement that fits keeps the days resembling each other, or stops the first. -/
theorem exec_simple (h : d.Resembles used hidden d') {s : Statement} (hblock : s.isBlock = false)
    (hfits : Fits used hidden [s]) : (s.exec d).Resembles used hidden (s.exec d') := by
  have huses : ∀ e ∈ s.expressions, Agree hidden (d.eval e) (d'.eval e) := fun e he =>
    h.eval (hfits.uses s (List.mem_singleton.2 rfl) e he)
  cases s with
  | block => cases hblock
  | expr e line => exact h.given (huses e (List.mem_singleton.2 rfl)) fun _ => h.proceed
  | print e line =>
    exact h.given (huses e (List.mem_singleton.2 rfl)) fun value => h.emit value.printed line
  | var name initial line =>
    have hname : name ∈ used → name ∉ hidden :=
      hfits.declares _ (List.mem_singleton.2 rfl) name (List.mem_singleton.2 rfl)
    have hdefine := fun value => (h.define name value value fun hused => ⟨hname hused, rfl⟩).proceed
    cases initial with
    | none => exact hdefine .nil
    | some e => exact h.given (huses e (List.mem_singleton.2 rfl)) hdefine
  | river name rate line =>
    have hset := fun flow => (h.put name _ _ ((h.flows name).setOwn flow) fun hused =>
      h.levels hused name).proceed
    cases rate with
    | none => exact h.given (.inl (congrArg Except.ok h.rainfall)) hset
    | some e =>
      have hrate := (huses e (List.mem_singleton.2 rfl)).bind fun value =>
        Agree.refl (value.asNumber "river" line)
      exact h.given hrate hset
  | output name line =>
    have htext : outputText name (d.rivers.state name) =
        outputText name (d'.rivers.state name) := by
      rw [outputText, outputText, (h.flows name).outflow]
    rw [Statement.exec, Statement.exec, output, output, htext]
    exact (h.mention name).emit _ line
  | combine name sources line =>
    have hsources := h.mentionAll sources
    rw [Statement.exec, Statement.exec, combine, combine,
      Registry.totalOutflow_congr fun x _ => (h.flows x).outflow]
    refine (hsources.put name _ _ ((hsources.flows name).setOwn _) ?_).proceed
    exact fun hused => hsources.levels hused name
  | flow source target line =>
    have hsource := h.mention source
    rw [Statement.exec, Statement.exec, transfer, transfer, (h.flows source).outflow]
    refine (hsource.put target _ _ ((hsource.flows target).receive _) ?_).proceed
    exact fun hused => hsource.levels hused target
  | dam name mode line => exact h.setDam hfits

end Day.Resembles

/-- Executions keep the resemblance of two days, unless the first does not know a hidden river. -/
theorem resembles_exec {used hidden : List String} :
    (∀ s : Statement, Fits used hidden s.simples → ∀ d d' : Day, d.Resembles used hidden d' →
      (s.exec d).Resembles used hidden (s.exec d')) ∧
    ∀ ss : List Statement, Fits used hidden (Statement.simplesAll ss) →
      ∀ d d' : Day, d.Resembles used hidden d' →
        (Statement.execAll ss d).Resembles used hidden (Statement.execAll ss d') := by
  obtain ⟨hexec, hexecAll⟩ := Statement.related_exec (P := fun s => Fits used hidden [s])
    (R := Day.Resembles used hidden) (E := Fault.Misses hidden)
    (fun s hblock hfits d d' h => h.exec_simple hblock hfits) (fun d d' h => h.opened)
    fun d d' e e' h he => ⟨he.rainfall, he.sink, h.lookup, h.unbound, he.flows, he.levels,
      he.known, he.revealed⟩
  have hfits : ∀ {simples : List Statement}, Fits used hidden simples →
      ∀ t ∈ simples, Fits used hidden [t] := by
    intro simples h t ht
    exact h.of_subset fun t' ht' => List.mem_singleton.1 ht' ▸ ht
  exact ⟨fun s h => hexec s (hfits h), fun ss h => hexecAll ss (hfits h)⟩

/-! ## Days that begin -/

/-- A day begins with the variables `rainfall` and `day`, and no others. -/
theorem Day.lookup_start (g : Registry) (rainfall : Float) (number : Nat) (k : Sink) (x : String) :
    (start g rainfall number k).environment.lookup x =
      if x = "day" then some (.number (Float.ofNat number))
      else if x = "rainfall" then some (.number rainfall) else none := by
  show ((Environment.root.define "rainfall" _).define "day" _).lookup x = _
  rw [Environment.lookup_define, Environment.lookup_define]
  rfl

/-- Two days resemble each other when they begin, if the first knows the rivers in use that the
second knows, but for hidden ones, and if they agree in the number and the levels where those are
in use. -/
theorem Day.resembles_start {used hidden : List String} {g g' : Registry} {number number' : Nat}
    (rainfall : Float) (k : Sink) (hnumber : "day" ∈ used → number = number')
    (hroot : ∀ x ∈ ["rainfall", "day"], x ∈ used → x ∉ hidden)
    (hlevels : "damLevel" ∈ used → ∀ x, (g.state x).level = (g'.state x).level)
    (hknown : ∀ x ∈ used, x ∈ g.names → x ∈ g'.names)
    (hrevealed : ∀ x ∈ used, x ∈ g'.names → x ∈ g.names ∨ x ∈ hidden) :
    (start g rainfall number k).Resembles used hidden (start g' rainfall number' k) := by
  have hnames : (start g rainfall number k).rivers.names = g.names := g.names_startDay
  have hnames' : (start g' rainfall number' k).rivers.names = g'.names := g'.names_startDay
  have hstate : ∀ x, (start g rainfall number k).rivers.state x = (g.state x).startDay :=
    g.state_startDay
  have hstate' : ∀ x, (start g' rainfall number' k).rivers.state x = (g'.state x).startDay :=
    g'.state_startDay
  refine ⟨rfl, rfl, ?_, ?_, ?_, ?_, ?_, ?_⟩
  · intro x hx
    rw [lookup_start, lookup_start]
    split
    · rename_i hday
      rw [hnumber (hday ▸ hx)]
    · rfl
  · intro x hx hhidden
    rw [lookup_start]
    split
    · exact absurd hhidden (hroot x (by simp [*]) hx)
    · split
      · exact absurd hhidden (hroot x (by simp [*]) hx)
      · rfl
  · intro x
    rw [hstate, hstate']
    exact ⟨rfl, rfl, rfl⟩
  · intro hused x
    rw [hstate, hstate']
    exact hlevels hused x
  · rw [hnames, hnames']
    exact hknown
  · rw [hnames, hnames']
    exact hrevealed

end Watershed
