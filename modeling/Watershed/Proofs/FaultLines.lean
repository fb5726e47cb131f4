import Watershed.Proofs.Days
import Watershed.Proofs.Diagnostics

/-!
# Where faults point

A fault that stops a run points into the program text. Every node of a program that was read from a
text stands on the line of one of its lexemes, and every fault of a statement stands on the line of
the statement or of a node of its expressions. So a run is stopped by a header or a summary that
the sink refuses, which belongs to no line, or by a first statement that fails, and then the fault
points at a line of this statement.
-/

set_option autoImplicit false

namespace Watershed

/-! ## The lines of a program -/

/-- The lines of all nodes of an expression. -/
def Expr.lines : Expr → List Nat
  | literal _ line => [line]
  | name _ line => [line]
  | group inner line => line :: inner.lines
  | unary _ operand line => line :: operand.lines
  | binary _ left right line => line :: (left.lines ++ right.lines)
  | logical _ left right line => line :: (left.lines ++ right.lines)

/-- The line of a statement and those of all nodes of the expressions that stand directly in it. -/
def Statement.lines (s : Statement) : List Nat :=
  s.line :: s.expressions.flatMap Expr.lines

/-- The line of a statement is one of its lines. -/
theorem Statement.line_mem_lines (s : Statement) : s.line ∈ s.lines :=
  List.mem_cons_self

/-- The lines of an expression that stands directly in a statement are lines of the statement. -/
theorem Statement.lines_subset_of_mem {s : Statement} {e : Expr} (h : e ∈ s.expressions) :
    e.lines ⊆ s.lines :=
  fun _ hn => List.mem_cons_of_mem _ (List.mem_flatMap.2 ⟨e, h, hn⟩)

namespace Grammar

/-- Joining two expressions adds a node on the line of the operator. -/
theorem lines_join (c : Connective) (left right : Expr) (line : Nat) :
    (c.join left right line).lines = line :: (left.lines ++ right.lines) := by
  cases c <;> rfl

/-- Every node of an expression stands on the line of one of its lexemes. -/
theorem Derives.lines_subset {tier : Option Tier} {p : List Lexeme} {e : Expr}
    (h : Derives tier p e) : e.lines ⊆ p.map Lexeme.line := by
  induction h with
  | tighter _ ih => exact ih
  | @chain t p q left right l c _ _ _ ihleft ihright =>
    rw [lines_join, List.map_append, List.map_cons]
    refine List.cons_subset.2 ⟨by simp, List.append_subset.2 ⟨?_, ?_⟩⟩
    · exact List.subset_append_of_subset_left _ ihleft
    · exact List.subset_append_of_subset_right _ (List.subset_cons_of_subset _ ihright)
  | unary _ _ ih => exact List.cons_subset_cons _ ih
  | group _ _ _ ih =>
    rw [List.map_append]
    exact List.cons_subset_cons _ (List.subset_append_of_subset_left _ ih)
  | number | text | bool | nil | name => exact List.Subset.refl _

/-- Every node of an initial value stands on the line of one of its lexemes. -/
theorem Initial.lines_subset {p : List Lexeme} {v : Option Expr} (h : Initial p v) :
    v.toList.flatMap Expr.lines ⊆ p.map Lexeme.line := by
  cases h with
  | none => exact List.nil_subset _
  | some _ hvalue => simpa using List.subset_cons_of_subset _ hvalue.lines_subset

/-- Every node of the factor of a dam stands on the line of one of its lexemes. -/
theorem Mode.lines_subset {p : List Lexeme} {mode : DamMode} {line : Nat} (h : Mode p mode line)
    (name : String) : (Statement.dam name mode line).lines ⊆ p.map Lexeme.line := by
  cases h with
  | opened => exact List.Subset.refl _
  | closed => exact List.Subset.refl _
  | adjusted _ hfactor =>
    simpa [Statement.lines, Statement.line, Statement.expressions]
      using List.subset_cons_of_subset _ hfactor.lines_subset

/-- A simple statement and every node of its expressions stand on the line of one of its
lexemes. -/
theorem Simple.lines_subset {p : List Lexeme} {s : Statement} (h : Simple p s) :
    s.lines ⊆ p.map Lexeme.line := by
  cases h with
  | river _ _ hinitial =>
    exact List.cons_subset_cons _ (List.subset_cons_of_subset _ hinitial.lines_subset)
  | var _ _ hinitial =>
    exact List.cons_subset_cons _ (List.subset_cons_of_subset _ hinitial.lines_subset)
  | dam _ _ hmode =>
    exact List.subset_cons_of_subset _ (List.subset_cons_of_subset _ (hmode.lines_subset _))
  | print _ hshown =>
    rw [Statement.lines, Statement.expressions, List.flatMap_singleton]
    exact List.cons_subset_cons _ hshown.lines_subset
  | expr hexpr =>
    rw [Statement.lines, Statement.expressions, List.flatMap_singleton]
    exact List.cons_subset.2 ⟨List.mem_cons_self, hexpr.lines_subset⟩
  | output | combine | flow => simp [Statement.lines, Statement.line, Statement.expressions]

/-- Every line of a simple statement in a passage is the line of one of its lexemes. -/
theorem Items.lines_subset {ts : List Lexeme} {ss : List Statement} (h : Items ts ss) :
    ∀ s ∈ Statement.simplesAll ss, s.lines ⊆ ts.map Lexeme.line := by
  induction h with
  | nil => simp [Statement.simplesAll]
  | terminator _ _ ih => exact fun s hs => List.subset_cons_of_subset _ (ih s hs)
  | @block l m body ts inner ss _ _ _ _ ihbody ih =>
    intro s hs
    rw [List.map_append, List.map_cons, List.map_cons]
    rw [Statement.simplesAll, Statement.simples] at hs
    rcases List.mem_append.1 hs with hinner | hmore
    · apply List.subset_append_of_subset_left
      exact List.subset_cons_of_subset _ (ihbody s hinner)
    · apply List.subset_append_of_subset_right
      exact List.subset_cons_of_subset _ (ih s hmore)
  | @last p t hsimple =>
    intro s hs
    rw [Statement.simplesAll, Statement.simplesAll, List.append_nil,
      Statement.simples_of_isBlock_eq_false hsimple.isBlock_eq_false] at hs
    obtain rfl := List.mem_singleton.1 hs
    exact hsimple.lines_subset
  | @simple p ts t l ss hsimple _ _ ih =>
    intro s hs
    rw [List.map_append, List.map_cons]
    rw [Statement.simplesAll,
      Statement.simples_of_isBlock_eq_false hsimple.isBlock_eq_false] at hs
    rcases List.mem_append.1 hs with hfirst | hmore
    · obtain rfl := List.mem_singleton.1 hfirst
      exact List.subset_append_of_subset_left _ hsimple.lines_subset
    · apply List.subset_append_of_subset_right
      exact List.subset_cons_of_subset _ (ih s hmore)

end Grammar

/-- Every line of a simple statement of a program is the line of a lexeme of its text, and not only
of the end of the text. -/
theorem Program.exists_lexeme_of_line {text : String} {program : Program}
    (h : Program.ofText text = .ok program) {s : Statement}
    (hs : s ∈ Statement.simplesAll program) {n : Nat} (hn : n ∈ s.lines) :
    ∃ l ∈ (Scan.ofText text).lexemes, l.token ≠ .endOfText ∧ l.line = n := by
  obtain ⟨hnone, rfl⟩ := Program.ofText_eq_ok_iff.1 h
  obtain ⟨p, hp, hitems, -⟩ :=
    Grammar.items_of_errors_eq_nil (Diagnostic.merge_eq_nil_iff.1 hnone).2
  obtain ⟨l, hl, rfl⟩ := List.mem_map.1 (hitems.lines_subset s hs hn)
  refine ⟨l, ?_, hitems.withoutEnd l hl, rfl⟩
  rw [hp]
  exact List.mem_append_left _ hl

/-! ## The lines of faults -/

section Values

variable {α β : Type} {fault : Fault} {line : Nat}

/-- Of two steps in a row that fail, the first fails, or the second does. -/
theorem error_of_bind {value : Except Fault α} {next : α → Except Fault β}
    (h : value >>= next = .error fault) :
    value = .error fault ∨ ∃ a, value = .ok a ∧ next a = .error fault := by
  cases value with
  | ok a => exact .inr ⟨a, rfl, h⟩
  | error _ =>
    cases h
    exact .inl rfl

/-- A unary operator fails on its own line. -/
theorem UnaryOp.line_of_error {op : UnaryOp} {value : Value}
    (h : op.apply value line = .error fault) : fault.line = line := by
  cases op with
  | not => cases h
  | negate => cases value <;> cases h <;> rfl

/-- An operator on numbers fails on its own line. -/
theorem BinaryOp.line_of_onNumbers_error {op : BinaryOp} {f : Float → Float → Value}
    {left right : Value} (h : op.onNumbers f left right line = .error fault) :
    fault.line = line := by
  unfold onNumbers at h
  split at h <;> cases h
  rfl

/-- A binary operator fails on its own line. -/
theorem BinaryOp.line_of_error {op : BinaryOp} {left right : Value}
    (h : op.apply left right line = .error fault) : fault.line = line := by
  cases op with
  | equal | notEqual => cases h
  | add => cases left <;> cases right <;> cases h <;> rfl
  | _ => exact line_of_onNumbers_error h

/-- A value that is no number fails on the line that asks for one. -/
theorem Value.line_of_error {value : Value} {construct : String}
    (h : value.asNumber construct line = .error fault) : fault.line = line := by
  unfold asNumber at h
  split at h <;> cases h
  rfl

/-- A dam factor is refused on the line of its statement. -/
theorem River.line_of_error {r : River} {factor : Float} {name : String}
    (h : r.setFactor factor name line = .error fault) : fault.line = line := by
  unfold setFactor at h
  split at h <;> cases h
  rfl

/-- A name that means nothing fails on its own line. -/
theorem line_of_resolve_error {rivers : Registry} {env : Environment} {name : String}
    (h : resolve rivers env name line = .error fault) : fault.line = line := by
  unfold resolve Environment.get at h
  split at h
  · cases h
  · split at h <;> cases h
    rfl

/-- An expression can only fail at one of its nodes. -/
theorem Expr.line_of_error {e : Expr} {rivers : Registry} {env : Environment}
    (h : e.eval rivers env = .error fault) : fault.line ∈ e.lines := by
  induction e with
  | literal value line => cases h
  | name n line => exact List.mem_singleton.2 (line_of_resolve_error h)
  | group inner line ih => exact List.mem_cons_of_mem _ (ih h)
  | unary op operand line ih =>
    rcases error_of_bind h with hoperand | ⟨value, -, hop⟩
    · exact List.mem_cons_of_mem _ (ih hoperand)
    · exact List.mem_cons.2 (.inl (UnaryOp.line_of_error hop))
  | binary op left right line ihleft ihright =>
    rcases error_of_bind h with hleft | ⟨a, -, hmore⟩
    · exact List.mem_cons_of_mem _ (List.mem_append_left _ (ihleft hleft))
    · rcases error_of_bind hmore with hright | ⟨b, -, hop⟩
      · exact List.mem_cons_of_mem _ (List.mem_append_right _ (ihright hright))
      · exact List.mem_cons.2 (.inl (BinaryOp.line_of_error hop))
  | logical op left right line ihleft ihright =>
    rcases error_of_bind h with hleft | ⟨a, -, hmore⟩
    · exact List.mem_cons_of_mem _ (List.mem_append_left _ (ihleft hleft))
    · split at hmore
      · cases hmore
      · exact List.mem_cons_of_mem _ (List.mem_append_right _ (ihright hmore))

end Values

namespace Day

variable {d : Day} {fault : Fault}

/-- What is done given a value fails for want of the value, or else fails itself. -/
theorem fault_of_given {α : Type} {value : Except Fault α} {next : α → Outcome}
    (h : (d.given value next).fault = some fault) :
    value = .error fault ∨ ∃ a, value = .ok a ∧ (next a).fault = some fault := by
  cases value with
  | ok a => exact .inr ⟨a, rfl, h⟩
  | error _ =>
    cases h
    exact .inl rfl

/-- A refused line of output fails on the line of its statement. -/
theorem line_of_emit_fault {text : String} {line : Nat}
    (h : (d.emit text line).fault = some fault) : fault.line = line := by
  have hwrite : d.sink.write (text ++ "\n") line = ((d.emit text line).day.sink, some fault) := by
    rw [← h]
    rfl
  rw [Sink.fault_of_write hwrite]
  rfl

end Day

namespace Statement

/-- A simple statement fails on its own line or at a node of its expressions. -/
theorem line_of_fault {s : Statement} (hblock : s.isBlock = false) {d : Day} {fault : Fault}
    (h : (s.exec d).fault = some fault) : fault.line ∈ s.lines := by
  have hown (heq : fault.line = s.line) : fault.line ∈ s.lines := heq ▸ s.line_mem_lines
  have hinner {e : Expr} {rivers : Registry} {env : Environment} (he : e ∈ s.expressions)
      (heval : e.eval rivers env = .error fault) : fault.line ∈ s.lines :=
    lines_subset_of_mem he (Expr.line_of_error heval)
  cases s with
  | block => cases hblock
  | expr e line =>
    rcases Day.fault_of_given h with heval | ⟨_, -, hnone⟩
    · exact hinner (List.mem_singleton.2 rfl) heval
    · cases hnone
  | print e line =>
    rcases Day.fault_of_given h with heval | ⟨_, -, hemit⟩
    · exact hinner (List.mem_singleton.2 rfl) heval
    · exact hown (Day.line_of_emit_fault hemit)
  | var name initial line =>
    rcases Day.fault_of_given h with hvalue | ⟨_, -, hnone⟩
    · cases initial with
      | none => cases hvalue
      | some e => exact hinner (List.mem_singleton.2 rfl) hvalue
    · cases hnone
  | river name rate line =>
    rcases Day.fault_of_given h with hflow | ⟨_, -, hnone⟩
    · cases rate with
      | none => cases hflow
      | some e =>
        rcases error_of_bind hflow with heval | ⟨_, -, hnumber⟩
        · exact hinner (List.mem_singleton.2 rfl) heval
        · exact hown (Value.line_of_error hnumber)
    · cases hnone
  | output name line => exact hown (Day.line_of_emit_fault h)
  | combine name sources line => cases h
  | flow source target line => cases h
  | dam name mode line =>
    rcases Day.fault_of_given h with hfactor | ⟨factor, -, hset⟩
    · cases mode with
      | opened => cases hfactor
      | closed => cases hfactor
      | adjusted e =>
        rcases error_of_bind hfactor with heval | ⟨_, -, hnumber⟩
        · exact hinner (List.mem_singleton.2 rfl) heval
        · exact hown (Value.line_of_error hnumber)
    · rcases Day.fault_of_given hset with hinvalid | ⟨_, -, hnone⟩
      · exact hown (River.line_of_error hinvalid)
      · cases hnone

/-! ## The first statement that fails -/

/-- The first statement that fails when statements are executed one after the other: a simple
statement, in blocks or outside, with the day on which it fails. Every statement before it
succeeds. -/
inductive FailsFirst : List Statement → Day → Statement → Day → Fault → Prop
  | here {s : Statement} {ss : List Statement} {d : Day} {fault : Fault}
      (simple : s.isBlock = false) (fails : (s.exec d).fault = some fault) :
      FailsFirst (s :: ss) d s d fault
  | inside {body ss : List Statement} {line : Nat} {d d' : Day} {t : Statement} {fault : Fault}
      (inner : FailsFirst body d.opened t d' fault) :
      FailsFirst (block body line :: ss) d t d' fault
  | later {s : Statement} {ss : List Statement} {d d' : Day} {t : Statement} {fault : Fault}
      (succeeds : (s.exec d).fault = none) (more : FailsFirst ss (s.exec d).day t d' fault) :
      FailsFirst (s :: ss) d t d' fault

/-- The first statement that fails is one of the simple statements. -/
theorem FailsFirst.mem_simplesAll {ss : List Statement} {d d' : Day} {t : Statement}
    {fault : Fault} (h : FailsFirst ss d t d' fault) : t ∈ simplesAll ss := by
  induction h with
  | here hsimple =>
    rw [simplesAll, simples_of_isBlock_eq_false hsimple]
    exact List.mem_cons_self
  | inside _ ih =>
    rw [simplesAll, simples]
    exact List.mem_append_left _ ih
  | later _ _ ih =>
    rw [simplesAll]
    exact List.mem_append_right _ ih

/-- The first statement that fails does so on its own line or at a node of its expressions. -/
theorem FailsFirst.line_mem_lines {ss : List Statement} {d d' : Day} {t : Statement}
    {fault : Fault} (h : FailsFirst ss d t d' fault) : fault.line ∈ t.lines := by
  induction h with
  | here hsimple hfails => exact line_of_fault hsimple hfails
  | inside _ ih => exact ih
  | later _ _ ih => exact ih

/-- An execution that fails has a first statement that fails. -/
theorem exists_failsFirst :
    (∀ (s : Statement) (d : Day) (fault : Fault), (s.exec d).fault = some fault →
      ∀ ss : List Statement, ∃ t d', FailsFirst (s :: ss) d t d' fault) ∧
    ∀ (ss : List Statement) (d : Day) (fault : Fault), (execAll ss d).fault = some fault →
      ∃ t d', FailsFirst ss d t d' fault := by
  apply induction_lists
  case simple =>
    intro s hblock d fault hfault ss
    exact ⟨s, d, .here hblock hfault⟩
  case block =>
    intro body line ih d fault hfault ss
    rw [exec_block] at hfault
    obtain ⟨t, d', hinner⟩ := ih d.opened fault hfault
    exact ⟨t, d', .inside hinner⟩
  case nil =>
    intro d fault hfault
    cases hfault
  case cons =>
    intro s ss ih ihs d fault hfault
    rw [execAll_cons] at hfault
    -- The others are executed only if the first succeeds, so its fault is the fault of all.
    cases hfirst : (s.exec d).fault with
    | some f =>
      have hsame : f = fault := by simpa [Day.Outcome.andThen, hfirst] using hfault
      exact ih d fault (hsame ▸ hfirst) ss
    | none =>
      have hmore : (execAll ss (s.exec d).day).fault = some fault := by
        simpa [Day.Outcome.andThen, hfirst] using hfault
      obtain ⟨t, d', hlater⟩ := ihs (s.exec d).day fault hmore
      exact ⟨t, d', .later hfirst hlater⟩

end Statement

/-! ## Runs -/

namespace Simulation

/-- How a day fails: the sink refuses its header or its summary, or there is a first statement of
the program that fails. -/
inductive DayFails (config : Config) (program : Program) (day : Nat) (g : Registry) (k : Sink) :
    Option Statement → Fault → Prop
  | headerRefused {k' : Sink} {fault : Fault}
      (refused : k.write (header config day) noLine = (k', some fault)) :
      DayFails config program day g k none fault
  | statementFails {k' : Sink} {t : Statement} {d : Day} {fault : Fault}
      (headed : k.write (header config day) noLine = (k', none))
      (fails : Statement.FailsFirst program (Day.start g config.rainfall day k') t d fault) :
      DayFails config program day g k (some t) fault
  | summaryRefused {k' last : Sink} {d : Day} {fault : Fault}
      (headed : k.write (header config day) noLine = (k', none))
      (done : Statement.execAll program (Day.start g config.rainfall day k') = d.proceed)
      (refused : d.sink.write (summary d.rivers day) noLine = (last, some fault)) :
      DayFails config program day g k none fault

variable {config : Config} {program : Program} {g : Registry} {k : Sink} {fault : Fault}

/-- A day that fails does so in one of the ways listed. -/
theorem exists_dayFails {day : Nat} (h : (runDay config program day g k).fault = some fault) :
    ∃ place, DayFails config program day g k place fault := by
  unfold runDay at h
  split at h
  · rename_i hheader
    cases h
    exact ⟨none, .headerRefused hheader⟩
  · rename_i k' hheader
    split at h
    · rename_i d f hexec
      cases h
      obtain ⟨t, d', hfails⟩ := Statement.exists_failsFirst.2 program _ fault (by rw [hexec])
      exact ⟨some t, .statementFails hheader hfails⟩
    · rename_i hexec
      split at h
      rename_i hsummary
      obtain rfl : _ = some fault := h
      exact ⟨none, .summaryRefused hheader hexec hsummary⟩

/-- Days in a row that fail succeed up to a day that fails. -/
theorem exists_dayFails_of_runDays {count day : Nat}
    (h : (runDays config program count day g k).fault = some fault) :
    ∃ n < count, ∃ g' k' place, runDays config program n day g k = ⟨g', k', none⟩ ∧
      DayFails config program (day + n) g' k' place fault := by
  induction count generalizing day g k with
  | zero => cases h
  | succ count ih =>
    cases hday : runDay config program day g k with
    | mk g' k' first =>
      rw [runDays, hday] at h
      cases first with
      | some f =>
        cases h
        obtain ⟨place, hfails⟩ := exists_dayFails (congrArg Outcome.fault hday)
        exact ⟨0, Nat.succ_pos _, g, k, place, rfl, hfails⟩
      | none =>
        obtain ⟨n, hn, g'', k'', place, hbefore, hfails⟩ := ih h
        refine ⟨n + 1, Nat.succ_lt_succ hn, g'', k'', place, ?_, ?_⟩
        · rw [runDays, hday]
          exact hbefore
        · rw [← Nat.add_assoc, Nat.add_right_comm]
          exact hfails

/-- A day that fails outside the statements of the program fails because output is refused. -/
theorem DayFails.refusedOutput {day : Nat} (h : DayFails config program day g k none fault) :
    ∃ details, fault = .refusedOutput details 0 := by
  cases h with
  | headerRefused hrefused => exact ⟨_, Sink.fault_of_write hrefused⟩
  | summaryRefused _ _ hrefused => exact ⟨_, Sink.fault_of_write hrefused⟩

/-- A day that fails at a statement fails on its line or at a node of its expressions. -/
theorem DayFails.statement {day : Nat} {t : Statement}
    (h : DayFails config program day g k (some t) fault) :
    t ∈ Statement.simplesAll program ∧ fault.line ∈ t.lines := by
  cases h with
  | statementFails _ hfails => exact ⟨hfails.mem_simplesAll, hfails.line_mem_lines⟩

end Simulation

/-- A run of a program text that fails succeeds up to a day that fails. Either the header or the
summary of this day is refused, and the fault has no line, or there is a first statement that
fails, and the fault is on the line of this statement or of a node of its expressions. This line is
the line of a lexeme of the text, and so it is one of the lines of the text. -/
theorem fault_points_into_statement (text : String) (program : Program)
    (hprogram : Program.ofText text = .ok program) (s : Simulation) (k : Sink) (fault : Fault)
    (hfault : (s.run program k).fault = some fault) :
    ∃ n < s.config.days, ∃ g k',
      Simulation.runDays s.config program n 1 s.rivers k = ⟨g, k', none⟩ ∧
      (Simulation.DayFails s.config program (n + 1) g k' none fault ∧
          (∃ details, fault = .refusedOutput details 0) ∨
        ∃ t, Simulation.DayFails s.config program (n + 1) g k' (some t) fault ∧
          fault.line ∈ t.lines ∧
          (∃ l ∈ (Scan.ofText text).lexemes, l.token ≠ .endOfText ∧ l.line = fault.line) ∧
          1 ≤ fault.line ∧ fault.line ≤ 1 + text.toList.count '\n') := by
  obtain ⟨n, hn, g, k', place, hbefore, hfails⟩ := Simulation.exists_dayFails_of_runDays hfault
  rw [Nat.add_comm 1 n] at hfails
  refine ⟨n, hn, g, k', hbefore, ?_⟩
  cases place with
  | none => exact .inl ⟨hfails, hfails.refusedOutput⟩
  | some t =>
    obtain ⟨ht, hline⟩ := hfails.statement
    obtain ⟨l, hl, hend, hsame⟩ := Program.exists_lexeme_of_line hprogram ht hline
    have hbounds := Scan.line_lexeme_bounds hl
    rw [hsame] at hbounds
    exact .inr ⟨t, hfails, hline, ⟨l, hl, hend, hsame⟩, hbounds⟩

/-- A comment splits a statement over two lines, and its operator stands on the second. -/
theorem fault_points_into_statement_operator :
    let text := "\x7b print nil /*\n*/ + nil \x7d"
    let program : Program :=
      [.block [.print (.binary .add (.literal .nil 1) (.literal .nil 2) 2) 1] 1]
    let s := Simulation.fresh Config.standard
    let fault : Fault := .wrongKind "+" .numbersOrTexts 2
    Program.ofText text = .ok program ∧ (s.run program Sink.unlimited).fault = some fault ∧
      ∃ g k' t, Simulation.DayFails s.config program 1 g k' (some t) fault ∧
        fault.line ∈ t.lines ∧ ∃ l ∈ (Scan.ofText text).lexemes, l.line = fault.line := by
  intro text program s fault
  have hscan : Scan.ofText text =
      ⟨[⟨.sign .leftBrace, "\x7b", 1⟩, ⟨.keyword .print, "print", 1⟩, ⟨.keyword .nil, "nil", 1⟩,
        ⟨.sign .plus, "+", 2⟩, ⟨.keyword .nil, "nil", 2⟩, ⟨.sign .rightBrace, "\x7d", 2⟩,
        ⟨.endOfText, "", 2⟩], []⟩ := by
    decide +kernel
  have hprogram : Program.ofText text = .ok program := by
    unfold Program.ofText
    rw [hscan]
    cbv
  have hfault : (s.run program Sink.unlimited).fault = some fault := by decide +kernel
  obtain ⟨n, hn, g, k', -, ⟨-, details, hrefused⟩ | ⟨t, hfails, hline, ⟨l, hl, -, hsame⟩, -⟩⟩ :=
    fault_points_into_statement text program hprogram s Sink.unlimited fault hfault
  · exact Fault.noConfusion hrefused
  · obtain rfl : n = 0 := Nat.lt_one_iff.1 hn
    exact ⟨hprogram, hfault, g, k', t, hfails, hline, l, hl, hsame⟩

end Watershed
