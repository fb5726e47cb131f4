import Watershed.CommandLine
import Watershed.Proofs.Output.Runs

/-!
# Lines at the prompt

Lines at the prompt do not interfere with each other. Whatever came before, a line is answered with
what running it alone writes: its output and its complaints are put behind what is there already,
and nothing else of the session can be seen by it. So a session writes, for one line of the input
after the other, the mark and the answer to the line alone.
-/

set_option autoImplicit false

namespace Watershed

/-! ## Output behind other output -/

/-- What has been written on one console, and then what has been written on another. -/
def Console.followedBy (c c' : Console) : Console :=
  ⟨c.output ++ c'.output, c.complaints ++ c'.complaints⟩

/-- The bytes of the trees of a program, one on each line. -/
def treeBytes : Program → ByteArray
  | [] => ByteArray.empty
  | s :: ss => (s.tree ++ "\n").toUTF8 ++ treeBytes ss

/-- A sink that never refuses takes the trees of a program, one on each line. -/
theorem writeTrees_unlimited (program : Program) (taken : ByteArray) :
    writeTrees program ⟨taken, none⟩ = (⟨taken ++ treeBytes program, none⟩, none) := by
  induction program generalizing taken with
  | nil => simp [writeTrees, treeBytes]
  | cons s ss ih =>
    show writeTrees ss ⟨taken ++ (s.tree ++ "\n").toUTF8, none⟩ = _
    rw [ih, ByteArray.append_assoc]
    rfl

/-- An outcome with what the run wrote behind bytes that were there before. -/
def Simulation.Outcome.behind (o : Outcome) (taken : ByteArray) : Outcome :=
  { o with sink := ⟨taken ++ o.sink.taken, none⟩ }

/-- A run into a sink that never refuses does not depend on what the sink has taken before. -/
theorem Simulation.run_unlimited (s : Simulation) (program : Program) (taken more : ByteArray) :
    s.run program ⟨taken ++ more, none⟩ = (s.run program ⟨more, none⟩).behind taken := by
  unfold run
  rw [runDays_unlimited, runDays_unlimited, ByteArray.append_assoc]
  rfl

/-- What a text does into a sink that never refuses does not depend on what the sink has taken
before. -/
theorem runText_unlimited (showTree : Bool) (config : Config) (text : String)
    (taken : ByteArray) :
    runText showTree config text ⟨taken, none⟩ =
      (runText showTree config text Sink.unlimited).map (·.behind taken) := by
  unfold runText
  cases Program.ofText text with
  | error ds => rfl
  | ok program =>
    cases showTree with
    | false =>
      have hrun := (Simulation.fresh config).run_unlimited program taken ByteArray.empty
      rw [ByteArray.append_empty] at hrun
      exact congrArg Except.ok hrun
    | true =>
      simp only [if_true, Sink.unlimited, writeTrees_unlimited, ByteArray.empty_append]
      exact congrArg Except.ok ((Simulation.fresh config).run_unlimited program taken _)

namespace Prompt

/-! ## One line -/

/-- What a line, given as bytes, writes if it is run alone: nothing but a complaint if it is not
valid UTF-8, and otherwise what the run of its text writes, without the line ends behind it, with
the diagnostics of the text or the fault that stops the run. -/
def alone (showTree : Bool) (line : List UInt8) : Console :=
  match String.fromUTF8? ⟨line.toArray⟩ with
  | none => ⟨ByteArray.empty, unreadable⟩
  | some text =>
    match runText showTree Config.standard (trimmed text) Sink.unlimited with
    | .error ds => ⟨ByteArray.empty, String.join (ds.map fun d => d.message ++ "\n")⟩
    | .ok ⟨_, sink, none⟩ => ⟨sink.taken, ""⟩
    | .ok ⟨_, sink, some fault⟩ => ⟨sink.taken, fault.message ++ "\n"⟩

/-- Whatever came before, a line is answered as if it were alone. -/
theorem console_answer (showTree : Bool) (s : Session) (line : List UInt8) :
    (answer showTree s line).console = s.console.followedBy (alone showTree line) := by
  obtain ⟨⟨output, complaints⟩, buffer⟩ := s
  unfold answer alone receive
  cases String.fromUTF8? ⟨line.toArray⟩ with
  | none => simp [Console.complain, Console.followedBy]
  | some text =>
    simp only [Option.map_some, String.empty_append, Console.perform, runText_unlimited]
    cases runText showTree Config.standard (trimmed text) Sink.unlimited with
    | error ds => simp [Console.followedBy, Console.complainOf, Console.complain, Failure.report,
        Except.map]
    | ok o =>
      obtain ⟨rivers, sink, fault⟩ := o
      cases fault with
      | none => simp [Console.followedBy, Console.complainOf, Except.map, Simulation.Outcome.behind]
      | some f =>
        simp [Console.followedBy, Console.complainOf, Console.complain, Failure.report, Except.map,
          Simulation.Outcome.behind]

/-- A line without the line ends behind it: what is left out are line feeds and carriage returns,
and what is left does not end with one. -/
theorem exists_lineEnds (text : String) :
    ∃ ends : List Char, text.toList = (trimmed text).toList ++ ends ∧
      (∀ c ∈ ends, c = '\n' ∨ c = '\r') ∧
      ∀ c ∈ (trimmed text).toList.getLast?, c ≠ '\n' ∧ c ≠ '\r' := by
  -- Read backwards, the line ends come first.
  let turned := text.toList.reverse
  have htrimmed : (trimmed text).toList = (turned.dropWhile isLineEnd).reverse := by
    simp [trimmed, turned]
  refine ⟨(turned.takeWhile isLineEnd).reverse, ?_, ?_, ?_⟩
  · rw [htrimmed, ← List.reverse_append, List.takeWhile_append_dropWhile]
    simp [turned]
  · intro c hc
    have hend := List.all_takeWhile (p := isLineEnd) (l := turned)
    have hmem := List.all_eq_true.1 hend c (List.mem_reverse.1 hc)
    simpa [isLineEnd] using hmem
  · intro c hc
    rw [htrimmed, List.getLast?_reverse] at hc
    have hlast := List.head?_dropWhile_not isLineEnd turned
    rw [hc] at hlast
    simpa [isLineEnd] using hlast

/-! ## The lines of the input -/

/-- The lines that bytes are cut into: each line ends with its line feed, and only the last may
have none. -/
inductive Lines : List UInt8 → List (List UInt8) → Prop
  | nil : Lines [] []
  | last {line : List UInt8} (some_bytes : line ≠ []) (no_feed : lineFeed ∉ line) :
      Lines line [line]
  | cons {line rest : List UInt8} {lines : List (List UInt8)} (no_feed : lineFeed ∉ line)
      (more : Lines rest lines) :
      Lines (line ++ lineFeed :: rest) ((line ++ [lineFeed]) :: lines)

/-- Bytes without a line feed are taken as one line. -/
theorem takeLine_of_not_mem {line : List UInt8} (h : lineFeed ∉ line) :
    takeLine line = (line, []) := by
  induction line with
  | nil => rfl
  | cons b bs ih =>
    rw [List.mem_cons, not_or] at h
    rw [takeLine, if_neg (Ne.symm h.1), ih h.2]

/-- A line is taken up to its line feed. -/
theorem takeLine_append {line : List UInt8} (h : lineFeed ∉ line) (rest : List UInt8) :
    takeLine (line ++ lineFeed :: rest) = (line ++ [lineFeed], rest) := by
  induction line with
  | nil => exact if_pos rfl
  | cons b bs ih =>
    rw [List.mem_cons, not_or] at h
    rw [List.cons_append, takeLine, if_neg (Ne.symm h.1), ih h.2]
    rfl

/-- The first line is the one that is taken off the input. -/
theorem Lines.takeLine_eq {input line : List UInt8} {lines : List (List UInt8)}
    (h : Lines input (line :: lines)) :
    ∃ rest, line ≠ [] ∧ takeLine input = (line, rest) ∧ Lines rest lines := by
  cases h with
  | last hsome hfeed => exact ⟨[], hsome, takeLine_of_not_mem hfeed, .nil⟩
  | cons hfeed hmore => exact ⟨_, by simp, takeLine_append hfeed _, hmore⟩

/-- No bytes are cut into no lines. -/
theorem Lines.eq_nil {lines : List (List UInt8)} (h : Lines [] lines) : lines = [] := by
  cases lines with
  | nil => rfl
  | cons line lines =>
    obtain ⟨rest, hsome, htake, -⟩ := h.takeLine_eq
    cases htake
    exact absurd rfl hsome

/-- Bytes are cut into lines in one way only. -/
theorem Lines.unique {input : List UInt8} {lines lines' : List (List UInt8)}
    (h : Lines input lines) (h' : Lines input lines') : lines = lines' := by
  induction lines generalizing input lines' with
  | nil =>
    cases h
    exact h'.eq_nil.symm
  | cons line lines ih =>
    obtain ⟨rest, hsome, htake, hmore⟩ := h.takeLine_eq
    cases lines' with
    | nil =>
      cases h'
      cases htake
      exact absurd rfl hsome
    | cons line' lines' =>
      obtain ⟨rest', -, htake', hmore'⟩ := h'.takeLine_eq
      obtain ⟨rfl, rfl⟩ := Prod.mk.inj (htake.symm.trans htake')
      rw [ih hmore hmore']

/-- All bytes can be cut into lines. -/
theorem exists_lines (input : List UInt8) : ∃ lines, Lines input lines := by
  induction input with
  | nil => exact ⟨[], .nil⟩
  | cons b bs ih =>
    obtain ⟨lines, hlines⟩ := ih
    by_cases hb : b = lineFeed
    · subst hb
      exact ⟨[lineFeed] :: lines, @Lines.cons [] bs lines List.not_mem_nil hlines⟩
    · -- The byte belongs to the first line of the others, if there are any.
      have hne : lineFeed ≠ b := Ne.symm hb
      cases hlines with
      | nil => exact ⟨[[b]], .last (by simp) (by simpa using hne)⟩
      | last _ hfeed => exact ⟨[b :: bs], .last (by simp) (by simpa [hne] using hfeed)⟩
      | @cons line rest lines hfeed hmore =>
        have hfeed' : lineFeed ∉ b :: line := by simpa [hne] using hfeed
        exact ⟨(b :: line ++ [lineFeed]) :: lines, .cons hfeed' hmore⟩

/-! ## Sessions -/

/-- A session writes, line by line, the mark and the answer to the line alone. -/
theorem console_session (showTree : Bool) (s : Session) {input : List UInt8}
    {lines : List (List UInt8)} (h : Lines input lines) :
    (session showTree s input).console =
      s.console.followedBy
        ⟨(lines.map fun line => mark.toUTF8 ++ (alone showTree line).output).foldr (· ++ ·)
            (mark ++ "\n").toUTF8,
          String.join (lines.map fun line => (alone showTree line).complaints)⟩ := by
  -- Each answer leaves its line in the buffer, so the session before the lines is any session.
  induction lines generalizing input s with
  | nil =>
    cases h
    rw [session, takeLine]
    simp [Session.say, Console.say, Console.followedBy, String.toUTF8_eq_toByteArray,
      ByteArray.append_assoc]
  | cons line lines ih =>
    obtain ⟨rest, hsome, htake, hmore⟩ := h.takeLine_eq
    obtain ⟨b, bs, rfl⟩ := List.exists_cons_of_ne_nil hsome
    have hstep : session showTree s input =
        session showTree (answer showTree (s.say mark) (b :: bs)) rest := by
      rw [session]
      split
      · rename_i hnil
        rw [htake] at hnil
        cases hnil
      · rename_i hcons
        rw [htake] at hcons
        cases hcons
        rfl
    rw [hstep, ih _ hmore, console_answer]
    simp only [Session.say, Console.say, Console.followedBy, List.map_cons, List.foldr_cons,
      String.join_cons, ByteArray.append_assoc, String.append_assoc]

end Prompt

/-- Lines at the prompt do not interfere. The input is cut into lines in just one way. For each of
them in turn a session shows the mark and writes what the line writes if it is run alone, the text
of which is the line without the line ends behind it; at the end there are the mark and a line
break. The status is zero whatever is wrong with the lines. -/
theorem prompt_lines_independent (args : List String) (showTree : Bool)
    (hargs : CommandLine.request args = .prompt showTree)
    (readScript : String → Except ScriptFault ByteArray) (input : List UInt8) :
    (∃ lines, Prompt.Lines input lines ∧ (∀ other, Prompt.Lines input other → other = lines) ∧
      (CommandLine.run args readScript input).2.code = 0 ∧
      (CommandLine.run args readScript input).1.output =
        (lines.map fun line => Prompt.mark.toUTF8 ++ (Prompt.alone showTree line).output).foldr
          (· ++ ·) (Prompt.mark ++ "\n").toUTF8 ∧
      (CommandLine.run args readScript input).1.complaints =
        String.join (lines.map fun line => (Prompt.alone showTree line).complaints)) ∧
    ∀ text : String, ∃ ends : List Char, text.toList = (Prompt.trimmed text).toList ++ ends ∧
      (∀ c ∈ ends, c = '\n' ∨ c = '\r') ∧
      ∀ c ∈ (Prompt.trimmed text).toList.getLast?, c ≠ '\n' ∧ c ≠ '\r' := by
  refine ⟨?_, Prompt.exists_lineEnds⟩
  obtain ⟨lines, hlines⟩ := Prompt.exists_lines input
  have hrun : CommandLine.run args readScript input =
      ((Prompt.session showTree Prompt.Session.fresh input).console, .success) := by
    rw [CommandLine.run, hargs]
  have hsession := Prompt.console_session showTree Prompt.Session.fresh hlines
  rw [hrun, hsession]
  refine ⟨lines, hlines, fun other hother => hother.unique hlines, rfl, ?_, ?_⟩
  · exact ByteArray.empty_append
  · exact String.empty_append

/-- A line that a fault stops, one that is not valid UTF-8, and a last one without line feed. -/
theorem prompt_lines_independent_mixed :
    let stopped : List UInt8 := [45, 110, 105, 108, 13, 10]
    let result := CommandLine.run ["--print-ast"] (fun _ => .error .absent)
      (stopped ++ [255, 10, 59])
    CommandLine.request ["--print-ast"] = .prompt true ∧ result.2.code = 0 ∧
      result.1.output = (Prompt.mark.toUTF8 ++ (Prompt.alone true stopped).output) ++
        (Prompt.mark.toUTF8 ++ ((Prompt.mark.toUTF8 ++ (Prompt.alone true [59]).output) ++
          (Prompt.mark ++ "\n").toUTF8)) ∧
      result.1.complaints = "Operand must be a number.\n[line 1]\n" ++ Prompt.unreadable := by
  intro stopped result
  have hscan : Scan.ofText "-nil" =
      ⟨[⟨.sign .minus, "-", 1⟩, ⟨.keyword .nil, "nil", 1⟩, ⟨.endOfText, "", 1⟩], []⟩ := by
    decide +kernel
  have hprogram : Program.ofText "-nil" =
      .ok [.expr (.unary .negate (.literal .nil 1) 1) 1] := by
    unfold Program.ofText
    rw [hscan]
    cbv
  have hstopped : (Prompt.alone true stopped).complaints =
      "Operand must be a number.\n[line 1]\n" := by
    have htext : (String.fromUTF8? ⟨stopped.toArray⟩).map Prompt.trimmed = some "-nil" := by
      decide +kernel
    obtain ⟨text, hdecoded, htrimmed⟩ := Option.map_eq_some_iff.1 htext
    unfold Prompt.alone runText
    rw [hdecoded]
    simp only [htrimmed, hprogram]
    decide +kernel
  have hlines : Prompt.Lines (stopped ++ [255, 10, 59]) [stopped, [255, 10], [59]] :=
    @Prompt.Lines.cons [45, 110, 105, 108, 13] _ _ (by decide)
      (@Prompt.Lines.cons [255] _ _ (by decide) (.last (by decide) (by decide)))
  obtain ⟨⟨lines, -, hunique, hstatus, houtput, hcomplaints⟩, -⟩ :=
    prompt_lines_independent ["--print-ast"] true rfl (fun _ => .error .absent)
      (stopped ++ [255, 10, 59])
  obtain rfl := hunique _ hlines
  refine ⟨rfl, hstatus, houtput, ?_⟩
  rw [show result.1.complaints = _ from hcomplaints, List.map_cons, String.join_cons, hstopped]
  decide +kernel

end Watershed
