import Mathlib.Data.List.Permutation
import Watershed.Program
import Watershed.Proofs.Grammar.ErrorOrder
import Watershed.Proofs.Scan.Lines

/-!
# Diagnostics keep their order

The faults of a text are reported by line. Sorting them by line changes the order of no two faults
of one kind, since the scan meets its errors in the order of the lines and so does the grammar; all
it does is to weave the two lists together, and on one line it puts the lexical errors first.
-/

set_option autoImplicit false

namespace Watershed

/-! ## Stable sorting -/

/-- A part of a list that is in order already is left as it is by sorting the whole. -/
theorem filter_mergeSort {α : Type} {le : α → α → Bool} {p : α → Bool} {l : List α}
    (htrans : ∀ a b c, le a b = true → le b c = true → le a c = true)
    (htotal : ∀ a b, (le a b || le b a) = true)
    (hp : (l.filter p).Pairwise fun a b => le a b = true) :
    (l.mergeSort le).filter p = l.filter p := by
  have hkept : (l.filter p).Sublist (l.mergeSort le) :=
    List.sublist_mergeSort htrans htotal hp List.filter_sublist
  have hinside : (l.filter p).Sublist ((l.mergeSort le).filter p) := by
    simpa using hkept.filter p
  have hlength : (l.filter p).length = ((l.mergeSort le).filter p).length :=
    ((List.mergeSort_perm l le).filter p).length_eq.symm
  exact (hinside.eq_of_length hlength).symm

namespace Diagnostic

/-- Whether a diagnostic is about a stretch that is no token. -/
def isLexical : Diagnostic → Bool
  | lexical _ => true
  | grammatical _ => false

/-- Whether a diagnostic is about a token that does not fit. -/
def isGrammatical : Diagnostic → Bool
  | lexical _ => false
  | grammatical _ => true

/-- A report weaves lexical and grammatical errors together: it goes by line, holds the errors of
either kind in the order they were met, and nothing else, and on one line the lexical errors stand
before the grammatical ones. -/
structure Weaves (lexicals : List LexicalError) (grammaticals : List GrammarError)
    (ds : List Diagnostic) : Prop where
  byLine : ds.Pairwise fun a b => a.line ≤ b.line
  lexical_alone : ds.filter isLexical = lexicals.map lexical
  grammatical_alone : ds.filter isGrammatical = grammaticals.map grammatical
  lexical_first : ds.Pairwise fun a b => a.line = b.line → a.isGrammatical → b.isGrammatical

/-- Of three diagnostics, the first is not after the last if neither is after its neighbour. -/
theorem notAfter_trans (a b c : Diagnostic) (hab : a.notAfter b = true)
    (hbc : b.notAfter c = true) : a.notAfter c = true := by
  simp only [notAfter, decide_eq_true_eq] at *
  omega

/-- Of two diagnostics, one is not after the other. -/
theorem notAfter_total (a b : Diagnostic) : (a.notAfter b || b.notAfter a) = true := by
  simp only [notAfter, Bool.or_eq_true, decide_eq_true_eq]
  omega

variable {lexicals : List LexicalError} {grammaticals : List GrammarError}

/-- Merged diagnostics go by line. -/
theorem merge_byLine : (merge lexicals grammaticals).Pairwise fun a b => a.line ≤ b.line := by
  have h := List.pairwise_mergeSort notAfter_trans notAfter_total
    (lexicals.map lexical ++ grammaticals.map grammatical)
  simpa [merge, notAfter] using h

/-- Merging keeps the order of diagnostics that are in the order of their lines. -/
theorem filter_merge (p : Diagnostic → Bool)
    (hp : ((lexicals.map lexical ++ grammaticals.map grammatical).filter p).Pairwise
      fun a b => a.line ≤ b.line) :
    (merge lexicals grammaticals).filter p =
      (lexicals.map lexical ++ grammaticals.map grammatical).filter p := by
  apply filter_mergeSort notAfter_trans notAfter_total
  simpa [notAfter] using hp

/-- Before they are sorted, the lexical errors are those that were put in. -/
theorem filter_isLexical :
    (lexicals.map lexical ++ grammaticals.map grammatical).filter isLexical =
      lexicals.map lexical := by
  rw [List.filter_append, List.filter_eq_self.2, List.filter_eq_nil_iff.2, List.append_nil]
  · simp [isLexical]
  · simp [isLexical]

/-- Before they are sorted, the grammatical errors are those that were put in. -/
theorem filter_isGrammatical :
    (lexicals.map lexical ++ grammaticals.map grammatical).filter isGrammatical =
      grammaticals.map grammatical := by
  rw [List.filter_append, List.filter_eq_nil_iff.2, List.filter_eq_self.2, List.nil_append]
  · simp [isGrammatical]
  · simp [isGrammatical]

/-- The diagnostics of one line stand in a merge as they stood before it. -/
theorem filter_line_merge (line : Nat) :
    (merge lexicals grammaticals).filter (·.line == line) =
      (lexicals.map lexical ++ grammaticals.map grammatical).filter (·.line == line) := by
  apply filter_merge
  apply List.pairwise_of_forall_mem_list
  intro a ha b hb
  have ha' : a.line = line := by simpa using (List.mem_filter.1 ha).2
  have hb' : b.line = line := by simpa using (List.mem_filter.1 hb).2
  omega

/-- Before they are sorted, no lexical error stands behind a grammatical one. -/
theorem grammatical_last : (lexicals.map lexical ++ grammaticals.map grammatical).Pairwise
    fun a b => a.isGrammatical → b.isGrammatical := by
  refine List.pairwise_append.2 ⟨?_, ?_, ?_⟩
  · apply List.pairwise_map.2
    exact List.pairwise_of_forall fun _ _ h => by cases h
  · apply List.pairwise_map.2
    exact List.pairwise_of_forall fun _ _ _ => rfl
  · simp [isGrammatical]

/-- Merged diagnostics of one line have the lexical ones first. -/
theorem merge_lexical_first : (merge lexicals grammaticals).Pairwise fun a b =>
    a.line = b.line → a.isGrammatical → b.isGrammatical := by
  apply List.pairwise_iff_forall_sublist.2
  intro a b hab hline
  have honLine := hab.filter (·.line == a.line)
  have hboth : [a, b].filter (·.line == a.line) = [a, b] := by simp [hline]
  rw [hboth, filter_line_merge] at honLine
  exact List.pairwise_iff_forall_sublist.1 grammatical_last (honLine.trans List.filter_sublist)

/-- Errors of either kind that were met in the order of their lines are woven together by a
merge. -/
theorem weaves_merge (hlexicals : lexicals.Pairwise (·.line ≤ ·.line))
    (hgrammaticals : grammaticals.Pairwise (·.line ≤ ·.line)) :
    Weaves lexicals grammaticals (merge lexicals grammaticals) where
  byLine := merge_byLine
  lexical_alone := by
    rw [filter_merge, filter_isLexical]
    rw [filter_isLexical]
    exact hlexicals.map lexical fun _ _ h => h
  grammatical_alone := by
    rw [filter_merge, filter_isGrammatical]
    rw [filter_isGrammatical]
    exact hgrammaticals.map grammatical fun _ _ h => h
  lexical_first := merge_lexical_first

/-- Merging neither adds nor drops a diagnostic. -/
theorem mem_merge {d : Diagnostic} : d ∈ merge lexicals grammaticals ↔
    d ∈ lexicals.map lexical ++ grammaticals.map grammatical :=
  (List.mergeSort_perm _ _).mem_iff

/-- Merged diagnostics are none if there are none of either kind. -/
theorem merge_eq_nil_iff :
    merge lexicals grammaticals = [] ↔ lexicals = [] ∧ grammaticals = [] := by
  rw [← List.length_eq_zero_iff, merge, List.length_mergeSort]
  simp

end Diagnostic

/-! ## Program texts -/

/-- The lexemes of a text hold its end. -/
theorem Scan.not_withoutEnd (text : String) : ¬Grammar.WithoutEnd (ofText text).lexemes := by
  intro h
  rw [ofText, lexemes_ofChars] at h
  exact h (ending _) (List.mem_append_right _ (List.mem_singleton_self _)) rfl

/-- The grammar meets its errors on the way through the lexemes of the whole text. -/
theorem metOnTheWay_program (text : String) :
    Grammar.MetOnTheWay (Scan.ofText text).lexemes
      (Grammar.passage false (Scan.ofText text).lexemes).errors
      (Grammar.passage false (Scan.ofText text).lexemes).rest :=
  Grammar.metOnTheWay_passage false _ (Scan.not_withoutEnd text)

/-- The line of a grammatical error is a line of the text. -/
theorem line_grammarError_bounds {text : String} {e : GrammarError}
    (h : e ∈ (Grammar.passage false (Scan.ofText text).lexemes).errors) :
    1 ≤ e.line ∧ e.line ≤ 1 + text.toList.count '\n' := by
  obtain ⟨l, hl, hfound⟩ := (metOnTheWay_program text).found_mem e h
  rw [Grammar.line_of_found hfound]
  exact Scan.line_lexeme_bounds hl

/-- The line of a diagnostic is a line of the text. -/
theorem line_diagnostic_bounds {text : String} {d : Diagnostic}
    (h : d ∈ Diagnostic.merge (Scan.ofText text).errors
      (Grammar.passage false (Scan.ofText text).lexemes).errors) :
    1 ≤ d.line ∧ d.line ≤ 1 + text.toList.count '\n' := by
  rcases List.mem_append.1 (Diagnostic.mem_merge.1 h) with hlexical | hgrammatical
  · obtain ⟨e, he, rfl⟩ := List.mem_map.1 hlexical
    exact Scan.line_error_bounds he
  · obtain ⟨e, he, rfl⟩ := List.mem_map.1 hgrammatical
    exact line_grammarError_bounds he

/-- A text is a program if nothing is wrong with it, and then it has the statements of its passage.
-/
theorem Program.ofText_eq_ok_iff {text : String} {p : Program} :
    Program.ofText text = .ok p ↔
      Diagnostic.merge (Scan.ofText text).errors
        (Grammar.passage false (Scan.ofText text).lexemes).errors = [] ∧
      p = (Grammar.passage false (Scan.ofText text).lexemes).statements := by
  unfold Program.ofText
  simp only
  split
  · rename_i hnone
    simp [hnone, eq_comm]
  · rename_i hsome
    constructor
    · intro h
      cases h
    · intro h
      exact absurd h.1 hsome

/-- A text that is no program has the merged errors of its scan and of its passage. -/
theorem Program.eq_merge_of_error {text : String} {ds : List Diagnostic}
    (h : Program.ofText text = .error ds) :
    ds = Diagnostic.merge (Scan.ofText text).errors
      (Grammar.passage false (Scan.ofText text).lexemes).errors := by
  unfold Program.ofText at h
  simp only at h
  split at h
  · cases h
  · cases h
    rfl

/-- A text is a program exactly if neither the scan nor the grammar finds an error. Otherwise the
report weaves together what they found, each in the order it was found, and every line it gives is
a line of the text. -/
theorem report_weaves (text : String) :
    ((∃ p, Program.ofText text = .ok p) ↔
      (Scan.ofText text).errors = [] ∧
        (Grammar.passage false (Scan.ofText text).lexemes).errors = []) ∧
    ∀ ds, Program.ofText text = .error ds →
      Diagnostic.Weaves (Scan.ofText text).errors
        (Grammar.passage false (Scan.ofText text).lexemes).errors ds ∧
      ∀ d ∈ ds, 1 ≤ d.line ∧ d.line ≤ 1 + text.toList.count '\n' := by
  constructor
  · simp [Program.ofText_eq_ok_iff, Diagnostic.merge_eq_nil_iff]
  · intro ds hds
    obtain rfl := Program.eq_merge_of_error hds
    have hgrammar := (metOnTheWay_program text).pairwise_line (Scan.lexemes_pairwise text)
    have hweaves := Diagnostic.weaves_merge (Scan.errors_pairwise text) hgrammar
    exact ⟨hweaves, fun d hd => line_diagnostic_bounds hd⟩

/-- An error in a block, then both kinds on one line, then a text literal left open. -/
theorem report_weaves_one_line :
    let text := "\x7b flow\n@ dam ) \x7d\n\"end"
    let ds : List Diagnostic :=
      [.grammatical ⟨.sourceRiver, some ⟨.lineBreak, "\n", 1⟩⟩,
        .lexical (.strayCharacter '@' 2),
        .grammatical ⟨.riverAfter .dam, some ⟨.sign .rightParen, ")", 2⟩⟩,
        .lexical (.unclosedText 3)]
    Program.ofText text = .error ds ∧
      Diagnostic.Weaves (Scan.ofText text).errors
        (Grammar.passage false (Scan.ofText text).lexemes).errors ds ∧
      ∀ d ∈ ds, 1 ≤ d.line ∧ d.line ≤ 1 + text.toList.count '\n' := by
  intro text ds
  have hscan : Scan.ofText text =
      ⟨[⟨.sign .leftBrace, "\x7b", 1⟩, ⟨.keyword .flow, "flow", 1⟩, ⟨.lineBreak, "\n", 1⟩,
        ⟨.keyword .dam, "dam", 2⟩, ⟨.sign .rightParen, ")", 2⟩, ⟨.sign .rightBrace, "\x7d", 2⟩,
        ⟨.lineBreak, "\n", 2⟩, ⟨.endOfText, "", 3⟩],
        [.strayCharacter '@' 2, .unclosedText 3]⟩ := by
    decide +kernel
  have hds : Program.ofText text = .error ds := by
    unfold Program.ofText
    rw [hscan]
    cbv
  exact ⟨hds, (report_weaves text).2 ds hds⟩

end Watershed
