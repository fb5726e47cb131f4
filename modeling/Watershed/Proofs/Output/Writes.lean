import Watershed.Proofs.Execution

/-!
# What an execution writes

The writes of an execution into a sink that never refuses: what `print` and `output` statements
show, each with the rivers at its moment. An execution into any other sink makes the same writes
one after the other until the sink refuses one. There it stops, with the rivers of that moment and
a fault on the line of what the write belongs to.
-/

set_option autoImplicit false

namespace Watershed

/-! ## The writes of an execution -/

/-- What a write belongs to. -/
inductive Write.Origin where
  | header (day : Nat)
  | summary (day : Nat)
  | statement (statement : Statement)

/-- The line on which the refusal of a write is reported. -/
def Write.Origin.line : Write.Origin → Nat
  | header _ => 0
  | summary _ => 0
  | statement s => s.line

/-- A write: what it belongs to, its text, and the rivers at its moment. -/
structure Write where
  origin : Write.Origin
  text : String
  rivers : Registry

/-- The bytes of some writes, one after the other. -/
def written : List Write → ByteArray
  | [] => ByteArray.empty
  | w :: ws => w.text.toUTF8 ++ written ws

/-- The bytes of writes in a row follow each other. -/
theorem written_append (ws ws' : List Write) :
    written (ws ++ ws') = written ws ++ written ws' := by
  induction ws with
  | nil => simp [written]
  | cons w ws ih => rw [List.cons_append, written, written, ih, ByteArray.append_assoc]

/-- Whether a statement is one of those that show something. -/
def Statement.shows : Statement → Bool
  | .print _ _ => true
  | .output _ _ => true
  | _ => false

mutual

/-- The writes of a statement on a day whose sink never refuses. -/
def Statement.writes : Statement → Day → List Write
  | .block body _, d => Statement.writesAll body d.opened
  | .print e line, d =>
    match d.eval e with
    | .ok value => [⟨.statement (.print e line), value.printed ++ "\n", d.rivers⟩]
    | .error _ => []
  | .output name line, d =>
    [⟨.statement (.output name line), Day.outputText name (d.rivers.state name) ++ "\n",
      d.rivers.mention name⟩]
  | _, _ => []

/-- The writes of statements one after the other, up to the first that fails. -/
def Statement.writesAll : List Statement → Day → List Write
  | [], _ => []
  | s :: ss, d =>
    s.writes d ++
      match s.exec d with
      | ⟨next, none⟩ => Statement.writesAll ss next
      | ⟨_, some _⟩ => []

end

/-! ## Writing into a sink -/

/-- Makes writes one after the other, up to the first that the sink refuses. The result is the sink
and the write it refused, if any. -/
def Sink.writeAll (k : Sink) : List Write → Sink × Option Write
  | [] => (k, none)
  | w :: ws =>
    match k.write w.text w.origin.line with
    | (k', none) => k'.writeAll ws
    | (k', some _) => (k', some w)

namespace Sink

/-- Writes in a row are made up to the first that is refused, in whichever part it is. -/
theorem writeAll_append (k : Sink) (ws ws' : List Write) :
    k.writeAll (ws ++ ws') =
      match k.writeAll ws with
      | (k', none) => k'.writeAll ws'
      | (k', some w) => (k', some w) := by
  induction ws generalizing k with
  | nil => rfl
  | cons w ws ih =>
    rw [List.cons_append, writeAll, writeAll]
    cases k.write w.text w.origin.line with
    | mk k' fault =>
      cases fault with
      | none => exact ih k'
      | some _ => rfl

/-- A sink that never refuses takes all writes. -/
theorem writeAll_unlimited (taken : ByteArray) (ws : List Write) :
    (⟨taken, none⟩ : Sink).writeAll ws = (⟨taken ++ written ws, none⟩, none) := by
  induction ws generalizing taken with
  | nil => simp [writeAll, written]
  | cons w ws ih =>
    show (⟨taken ++ w.text.toUTF8, none⟩ : Sink).writeAll ws = _
    rw [ih, ByteArray.append_assoc]
    rfl

/-- A text that fits under the limit is taken as a whole. -/
theorem write_of_le {taken : ByteArray} {limit : Limit} {text : String} (line : Nat)
    (h : (taken ++ text.toUTF8).size ≤ limit.capacity) :
    write ⟨taken, some limit⟩ text line = (⟨taken ++ text.toUTF8, some limit⟩, none) :=
  if_pos h

/-- A text that does not fit under the limit is taken up to the limit, and refused. -/
theorem write_of_lt {taken : ByteArray} {limit : Limit} {text : String} (line : Nat)
    (h : limit.capacity < (taken ++ text.toUTF8).size) :
    write ⟨taken, some limit⟩ text line =
      (⟨(taken ++ text.toUTF8).extract 0 limit.capacity, some limit⟩,
        some (.refusedOutput limit.refusal line)) :=
  if_neg (Nat.not_le_of_lt h)

/-- The first bytes of two arrays in a row are those of the first array, if it is long enough. -/
theorem extract_append_of_le {a b : ByteArray} {n : Nat} (h : n ≤ a.size) :
    (a ++ b).extract 0 n = a.extract 0 n := by
  rw [ByteArray.extract_append, Nat.sub_eq_zero_of_le h, Nat.zero_sub, ByteArray.extract_same,
    ByteArray.append_empty]

/-- A sink with a capacity takes all writes if there is room for them. Otherwise it refuses the
write that crosses its capacity, and takes the bytes up to there. -/
theorem writeAll_limited {taken : ByteArray} {limit : Limit} (ws : List Write)
    (htaken : taken.size ≤ limit.capacity) :
    ((taken ++ written ws).size ≤ limit.capacity →
      (⟨taken, some limit⟩ : Sink).writeAll ws = (⟨taken ++ written ws, some limit⟩, none)) ∧
    (limit.capacity < (taken ++ written ws).size →
      ∃ before w after, ws = before ++ w :: after ∧
        (taken ++ written before).size ≤ limit.capacity ∧
        limit.capacity < (taken ++ written (before ++ [w])).size ∧
        (⟨taken, some limit⟩ : Sink).writeAll ws =
          (⟨(taken ++ written ws).extract 0 limit.capacity, some limit⟩, some w)) := by
  induction ws generalizing taken with
  | nil =>
    simp only [written, ByteArray.append_empty]
    refine ⟨fun _ => rfl, fun h => ?_⟩
    omega
  | cons w ws ih =>
    rcases Nat.lt_or_ge limit.capacity (taken ++ w.text.toUTF8).size with hover | hfits
    · -- The first write crosses the capacity, so nothing after it counts.
      have hstep : (⟨taken, some limit⟩ : Sink).writeAll (w :: ws) =
          (⟨(taken ++ w.text.toUTF8).extract 0 limit.capacity, some limit⟩, some w) := by
        rw [writeAll, write_of_lt _ hover]
      rw [hstep, written, ← ByteArray.append_assoc]
      refine ⟨fun h => ?_, fun _ => ⟨[], w, ws, rfl, ?_, ?_, ?_⟩⟩
      · rw [ByteArray.size_append] at h
        omega
      · simpa [written] using htaken
      · simpa [written] using hover
      · rw [extract_append_of_le (Nat.le_of_lt hover)]
    · have hstep : (⟨taken, some limit⟩ : Sink).writeAll (w :: ws) =
          (⟨taken ++ w.text.toUTF8, some limit⟩ : Sink).writeAll ws := by
        rw [writeAll, write_of_le _ hfits]
      obtain ⟨hroom, hfull⟩ := ih hfits
      rw [hstep, written, ← ByteArray.append_assoc]
      refine ⟨hroom, fun h => ?_⟩
      obtain ⟨before, v, after, rfl, hbefore, hcross, hwrite⟩ := hfull h
      refine ⟨w :: before, v, after, rfl, ?_, ?_, hwrite⟩
      · rw [written, ← ByteArray.append_assoc]
        exact hbefore
      · rw [List.cons_append, written, ← ByteArray.append_assoc]
        exact hcross

end Sink

/-! ## Executions into any sink -/

/-- The same day with another sink. -/
def Day.withSink (d : Day) (k : Sink) : Day :=
  { d with sink := k }

/-- The fault of a refused write. -/
def Write.fault (w : Write) (limit : Option Sink.Limit) : Fault :=
  .refusedOutput ((limit.map Sink.Limit.refusal).getD "") w.origin.line

/-- Whether an execution into a sink follows the execution into a sink that never refuses, given
the result of the writes: it comes to the same, or it stops at the write that was refused, with the
rivers of its moment. -/
def Day.Outcome.Follows (o free : Outcome) : Sink × Option Write → Prop
  | (k, none) => o = ⟨free.day.withSink k, free.fault⟩
  | (k, some w) => o.day.rivers = w.rivers ∧ o.day.sink = k ∧ o.fault = some (w.fault k.limit)

/-- A write that is refused fails with the refusal of the sink. -/
theorem Sink.fault_of_write {k k' : Sink} {text : String} {line : Nat} {fault : Fault}
    (h : k.write text line = (k', some fault)) :
    fault = .refusedOutput ((k'.limit.map Sink.Limit.refusal).getD "") line := by
  obtain ⟨taken, limit⟩ := k
  cases limit with
  | none => cases h
  | some limit =>
    rcases Nat.lt_or_ge limit.capacity (taken ++ text.toUTF8).size with hover | hfits
    · rw [write_of_lt line hover] at h
      cases h
      rfl
    · rw [write_of_le line hfits] at h
      cases h

/-- A line of output into any sink follows the same line into a sink that never refuses. -/
theorem Day.follows_emit (d : Day) (k : Sink) (w : Write) {text : String}
    (htext : w.text = text ++ "\n") (hrivers : w.rivers = d.rivers) (hfree : d.sink.limit = none) :
    ((d.withSink k).emit text w.origin.line).Follows (d.emit text w.origin.line)
      (k.writeAll [w]) := by
  obtain ⟨rainfall, environment, rivers, taken, limit⟩ := d
  obtain rfl : limit = none := hfree
  simp only [Sink.writeAll, htext, emit, withSink]
  cases hwrite : k.write (text ++ "\n") w.origin.line with
  | mk k' fault =>
    cases fault with
    | none => rfl
    | some f => exact ⟨hrivers.symm, rfl, congrArg some (Sink.fault_of_write hwrite)⟩

/-- What is done given a value on a day with another sink is the same with the other sink, if what
follows is. -/
theorem Day.given_withSink {α : Type} (d : Day) (k : Sink) (value : Except Fault α)
    {next next' : α → Outcome} (h : ∀ a, next' a = ⟨(next a).day.withSink k, (next a).fault⟩) :
    (d.withSink k).given value next' =
      ⟨(d.given value next).day.withSink k, (d.given value next).fault⟩ := by
  cases value with
  | ok a => exact h a
  | error fault => rfl

/-- A simple statement that shows nothing does the same whatever the sink. -/
theorem Statement.exec_withSink {s : Statement} (hblock : s.isBlock = false)
    (hshows : s.shows = false) (d : Day) (k : Sink) :
    s.exec (d.withSink k) = ⟨(s.exec d).day.withSink k, (s.exec d).fault⟩ := by
  cases s with
  | block => cases hblock
  | print => cases hshows
  | output => cases hshows
  | expr e line => exact d.given_withSink k (d.eval e) fun _ => rfl
  | var name initial line => exact d.given_withSink k _ fun _ => rfl
  | river name rate line => exact d.given_withSink k _ fun _ => rfl
  | combine name sources line => rfl
  | flow source target line => rfl
  | dam name mode line =>
    let mentioned := d.withRivers (d.rivers.mention name)
    have hfactor : (mentioned.withSink k).damFactor name mode line =
        mentioned.damFactor name mode line := by
      cases mode <;> rfl
    show (mentioned.withSink k).given ((mentioned.withSink k).damFactor name mode line) _ = _
    rw [hfactor]
    refine mentioned.given_withSink k _ fun factor => ?_
    exact mentioned.given_withSink k _ fun _ => rfl

/-- Closing the scope of a block keeps an execution following another one. -/
theorem Day.Outcome.Follows.closed {o free : Outcome} {r : Sink × Option Write}
    (h : o.Follows free r) : o.closed.Follows free.closed r := by
  obtain ⟨k, refused⟩ := r
  cases refused with
  | none =>
    obtain rfl : o = ⟨free.day.withSink k, free.fault⟩ := h
    rfl
  | some w => exact h

/-- An execution that follows itself has written its writes into a sink that never refuses. -/
theorem Day.sink_of_follows {o : Outcome} {ws : List Write} {k : Sink} (hk : k.limit = none)
    (h : o.Follows o (k.writeAll ws)) : o.day.sink = ⟨k.taken ++ written ws, none⟩ := by
  obtain ⟨taken, limit⟩ := k
  obtain rfl : limit = none := hk
  rw [Sink.writeAll_unlimited] at h
  exact congrArg (fun o : Outcome => o.day.sink) h

/-- An execution makes its writes one after the other, until the sink refuses one. -/
theorem follows_writes :
    (∀ (s : Statement) (d : Day) (k : Sink), d.sink.limit = none →
      (s.exec (d.withSink k)).Follows (s.exec d) (k.writeAll (s.writes d))) ∧
    ∀ (ss : List Statement) (d : Day) (k : Sink), d.sink.limit = none →
      (Statement.execAll ss (d.withSink k)).Follows (Statement.execAll ss d)
        (k.writeAll (Statement.writesAll ss d)) := by
  apply Statement.induction_lists
  case simple =>
    intro s hblock d k hfree
    cases s with
    | block => cases hblock
    | print e line =>
      rw [Statement.exec, Statement.exec, Statement.writes, Day.print, Day.print]
      show ((d.withSink k).given (d.eval e) _).Follows (d.given (d.eval e) _) _
      cases d.eval e with
      | error fault => rfl
      | ok value => exact d.follows_emit k _ rfl rfl hfree
    | output name line =>
      rw [Statement.exec, Statement.exec, Statement.writes]
      exact (d.withRivers (d.rivers.mention name)).follows_emit k _ rfl rfl hfree
    | _ => exact Statement.exec_withSink hblock rfl d k
  case block =>
    intro body line ih d k hfree
    rw [Statement.exec_block, Statement.exec_block, Statement.writes]
    exact (ih d.opened k hfree).closed
  case nil =>
    intro d k _
    rfl
  case cons =>
    intro s ss ih ihs d k hfree
    have hfirst := ih d k hfree
    rw [Statement.execAll, Statement.execAll, Statement.writesAll, Sink.writeAll_append]
    cases hwrite : k.writeAll (s.writes d) with
    | mk k' refused =>
      rw [hwrite] at hfirst
      cases refused with
      | some w =>
        -- Refused inside the first statement: the others are not executed.
        obtain ⟨hrivers, hsink, hfault⟩ := hfirst
        simp only [Day.Outcome.andThen, hfault]
        exact ⟨hrivers, hsink, hfault⟩
      | none =>
        have hsink : (s.exec d).day.sink = ⟨d.sink.taken ++ written (s.writes d), none⟩ :=
          Day.sink_of_follows hfree (ih d d.sink hfree)
        obtain hfirst : s.exec (d.withSink k) = ⟨(s.exec d).day.withSink k', (s.exec d).fault⟩ :=
          hfirst
        rw [hfirst]
        cases hexec : s.exec d with
        | mk next fault =>
          cases fault with
          | some f => rfl
          | none =>
            rw [hexec] at hsink
            exact ihs next k' (congrArg Sink.limit hsink)

end Watershed
