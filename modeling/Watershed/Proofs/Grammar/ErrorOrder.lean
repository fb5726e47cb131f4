import Watershed.Proofs.Grammar.Foresight

/-!
# Errors in the order of the lexemes

Reading never goes back, whether it succeeds, fails or recovers, and a block records the errors
inside it before its own. The errors of a passage therefore point at lexemes further and further
on (`metOnTheWay_passage`). Nor does reading ever go past the end of the text, so as long as the
end is still to come, every error has a lexeme to point at.
-/

set_option autoImplicit false

namespace Watershed.Grammar

/-! ## Reading on -/

/-- Reading goes on from some lexemes to some of the last ones of them, and not past the end of the
text. -/
def GoesOn (ts rest : List Lexeme) : Prop :=
  ∃ front, WithoutEnd front ∧ ts = front ++ rest

namespace GoesOn

variable {ts mid rest : List Lexeme}

/-- Reading goes on from some lexemes to the same ones. -/
theorem refl (ts : List Lexeme) : GoesOn ts ts :=
  ⟨[], withoutEnd_nil, rfl⟩

/-- Reading goes on in two steps. -/
theorem trans (h : GoesOn ts mid) (h' : GoesOn mid rest) : GoesOn ts rest := by
  obtain ⟨front, hfront, rfl⟩ := h
  obtain ⟨front', hfront', rfl⟩ := h'
  exact ⟨front ++ front', withoutEnd_append.2 ⟨hfront, hfront'⟩, by simp⟩

/-- A lexeme that is not the end of the text can be skipped. -/
theorem skip {l : Lexeme} (hl : l.token ≠ .endOfText) (h : GoesOn ts rest) :
    GoesOn (l :: ts) rest := by
  obtain ⟨front, hfront, rfl⟩ := h
  exact ⟨l :: front, withoutEnd_cons.2 ⟨hl, hfront⟩, rfl⟩

/-- Reading goes on to a suffix of the lexemes. -/
theorem suffix (h : GoesOn ts rest) : rest <:+ ts := by
  obtain ⟨front, -, rfl⟩ := h
  exact List.suffix_append front rest

/-- The end of the text is still to come if it was. -/
theorem not_withoutEnd (h : GoesOn ts rest) (hts : ¬WithoutEnd ts) : ¬WithoutEnd rest := by
  obtain ⟨front, hfront, rfl⟩ := h
  intro hrest
  exact hts (withoutEnd_append.2 ⟨hfront, hrest⟩)

end GoesOn

/-- Lexemes among which the end of the text stands have a first one. -/
theorem exists_cons_of_not_withoutEnd {ts : List Lexeme} (h : ¬WithoutEnd ts) :
    ∃ l ls, ts = l :: ls := by
  cases ts with
  | nil => exact absurd withoutEnd_nil h
  | cons l ls => exact ⟨l, ls, rfl⟩

/-- A terminator is not the end of the text. -/
theorem ne_endOfText_of_terminator {token : Token} (h : token.isTerminator = true) :
    token ≠ .endOfText := by
  rintro rfl
  cases h

/-- A lexeme that ends no passage is not the end of the text. -/
theorem ne_endOfText_of_not_ends {inBlock : Bool} {token : Token}
    (h : ¬endsPassage inBlock token = true) : token ≠ .endOfText := by
  rintro rfl
  exact h rfl

/-- Recovery does not skip the end of the text. -/
theorem goesOn_recover (inBlock : Bool) (ts : List Lexeme) : GoesOn ts (recover inBlock ts) := by
  fun_induction recover inBlock ts with
  | case1 => exact .refl _
  | case2 => exact .refl _
  | case3 l ls hend => exact .skip (ne_endOfText_of_not_ends hend) (.refl _)
  | case4 l ls hend => exact .skip (ne_endOfText_of_not_ends hend) (.refl _)
  | case5 l ls hend _ _ ih => exact .skip (ne_endOfText_of_not_ends hend) ih

/-- The end of a statement does not read the end of the text. -/
theorem goesOn_statementEnd (ts : List Lexeme) : GoesOn ts (statementEnd ts).rest := by
  fun_cases statementEnd ts with
  | case1 => exact .refl _
  | case2 l ls hterm => exact .skip (ne_endOfText_of_terminator hterm) (.refl _)
  | case3 => exact .refl _
  | case4 => exact .refl _

/-- Looking for the end of a statement does not read the end of the text. -/
theorem goesOn_ended (r : Reading Statement) : GoesOn r.rest (ended r).rest := by
  fun_cases ended r with
  | case1 => exact .refl _
  | case2 _ rest => exact goesOn_statementEnd rest
  | case3 => exact .refl _

/-- What is read of a simple statement is all or the beginning of one, and none has the end of the
text in it. -/
theorem goesOn_simpleStatement (l : Lexeme) (ls : List Lexeme) :
    GoesOn (l :: ls) (simpleStatement l ls).rest := by
  cases hread : simpleStatement l ls with
  | mk outcome rest =>
    cases outcome with
    | ok s =>
      obtain ⟨p, hsplit, hs⟩ := simple_of_read hread
      exact ⟨p, hs.withoutEnd, hsplit⟩
    | error wanted =>
      obtain ⟨p, more, s, hsplit, hs⟩ := simple_completed hread
      exact ⟨p, (withoutEnd_append.1 hs.withoutEnd).1, hsplit⟩

/-! ## Errors met on the way -/

/-- An error that points at a lexeme has its line. -/
theorem line_of_found {e : GrammarError} {l : Lexeme} (h : e.found = some l) :
    e.line = l.line := by
  simp [GrammarError.line, h]

/-- Errors met while reading goes on from some lexemes to others: each points at the lexeme reading
had come to, and the later ones were met after going on from there. -/
inductive MetOnTheWay : List Lexeme → List GrammarError → List Lexeme → Prop
  | none {ts rest : List Lexeme} (on : GoesOn ts rest) : MetOnTheWay ts [] rest
  | error {ts ls rest : List Lexeme} {l : Lexeme} {wanted : Expectation} {es : List GrammarError}
      (on : GoesOn ts (l :: ls)) (more : MetOnTheWay (l :: ls) es rest) :
      MetOnTheWay ts (⟨wanted, some l⟩ :: es) rest

namespace MetOnTheWay

variable {ts mid rest : List Lexeme} {es es' : List GrammarError}

/-- Reading goes on from where the errors begin to where they end. -/
theorem goesOn (h : MetOnTheWay ts es rest) : GoesOn ts rest := by
  induction h with
  | none on => exact on
  | error on _ ih => exact on.trans ih

/-- Errors met later are met on the way from further in front. -/
theorem after (hon : GoesOn ts mid) (h : MetOnTheWay mid es rest) : MetOnTheWay ts es rest := by
  cases h with
  | none on => exact .none (hon.trans on)
  | error on more => exact .error (hon.trans on) more

/-- Errors met on two ways in a row are met on the way as a whole. -/
theorem append (h : MetOnTheWay ts es mid) (h' : MetOnTheWay mid es' rest) :
    MetOnTheWay ts (es ++ es') rest := by
  induction h with
  | none on => exact h'.after on
  | error on _ ih => exact .error on (ih h')

/-- Errors met earlier are met on the way to further behind. -/
theorem before (h : MetOnTheWay ts es mid) (hon : GoesOn mid rest) : MetOnTheWay ts es rest := by
  have hall := h.append (.none hon)
  rwa [List.append_nil] at hall

/-- Errors point at lexemes of the text, never past its end. -/
theorem found_mem (h : MetOnTheWay ts es rest) : ∀ e ∈ es, ∃ l ∈ ts, e.found = some l := by
  induction h with
  | none on => simp
  | @error ts ls rest l wanted es on _ ih =>
    intro e he
    rcases List.mem_cons.1 he with rfl | he
    · exact ⟨l, on.suffix.subset (by simp), rfl⟩
    · obtain ⟨k, hk, hfound⟩ := ih e he
      exact ⟨k, on.suffix.subset hk, hfound⟩

/-- If the lexemes are in the order of their lines, so are the errors met on the way. -/
theorem pairwise_line (h : MetOnTheWay ts es rest) (hts : ts.Pairwise (·.line ≤ ·.line)) :
    es.Pairwise (·.line ≤ ·.line) := by
  induction h with
  | none on => exact .nil
  | @error ts ls rest l wanted es on more ih =>
    have hlater := hts.sublist on.suffix.sublist
    refine .cons ?_ (ih hlater)
    intro e he
    obtain ⟨k, hk, hfound⟩ := more.found_mem e he
    show l.line ≤ e.line
    rw [line_of_found hfound]
    rcases List.mem_cons.1 hk with rfl | hk
    · exact Nat.le_refl _
    · exact List.rel_of_pairwise_cons hlater hk

end MetOnTheWay

/-! ## Passages -/

/-- The error of a statement is met after those recorded inside it. -/
theorem metOnTheWay_conclude {ts : List Lexeme} (inBlock : Bool) {r : StatementReading}
    (h : MetOnTheWay ts r.recorded r.reading.rest) (hts : ¬WithoutEnd ts) :
    MetOnTheWay ts (conclude inBlock r).errors (conclude inBlock r).rest := by
  have hended := h.before (goesOn_ended r.reading)
  fun_cases conclude inBlock r with
  | case1 s rest heq => rwa [heq] at hended
  | case2 wanted rest heq =>
    rw [heq] at hended
    obtain ⟨l, ls, rfl⟩ := exists_cons_of_not_withoutEnd (hended.goesOn.not_withoutEnd hts)
    exact hended.append (.error (.refl _) (.none (goesOn_recover inBlock (l :: ls))))

/-- Closing a block does not read the end of the text. -/
theorem goesOn_closeBlock (line : Nat) (body : Passage) :
    GoesOn body.rest (closeBlock line body).reading.rest := by
  show GoesOn body.rest (Phrase.sign .rightBrace .closingBrace body.rest).rest
  fun_cases Phrase.sign .rightBrace .closingBrace body.rest with
  | case1 => exact .refl _
  | case2 l ls hclose => exact .skip (by simp [hclose]) (.refl _)
  | case3 => exact .refl _

/-- The errors inside a block are met between its first brace and where it is closed. -/
theorem metOnTheWay_statement {l : Lexeme} {ls : List Lexeme}
    (hbody : ¬WithoutEnd ls → MetOnTheWay ls (passage true ls).errors (passage true ls).rest)
    (hts : ¬WithoutEnd (l :: ls)) :
    MetOnTheWay (l :: ls) (statement (l :: ls)).recorded (statement (l :: ls)).reading.rest := by
  rw [statement_cons]
  split
  · rename_i hopen
    have hskip : GoesOn (l :: ls) ls := .skip (by simp [hopen]) (.refl ls)
    have hinside := hbody (hskip.not_withoutEnd hts)
    exact (hinside.after hskip).before (goesOn_closeBlock l.line (passage true ls))
  · exact .none (goesOn_simpleStatement l ls)

/-- As long as the end of the text is to come, the errors of a passage are met on the way from its
first lexeme to what it leaves. -/
theorem metOnTheWay_passage (inBlock : Bool) (ts : List Lexeme) (hts : ¬WithoutEnd ts) :
    MetOnTheWay ts (passage inBlock ts).errors (passage inBlock ts).rest := by
  induction inBlock, ts using passage_induction with
  | finished inBlock ts hend =>
    rw [passage_end hend]
    exact .none (.refl ts)
  | terminator inBlock l ls hterm ih =>
    have hskip : GoesOn (l :: ls) ls := .skip (ne_endOfText_of_terminator hterm) (.refl ls)
    rw [passage_terminator inBlock ls hterm]
    exact (ih (hskip.not_withoutEnd hts)).after hskip
  | begun inBlock l ls hterm hend hbody hafter =>
    have hitem := metOnTheWay_conclude inBlock (metOnTheWay_statement hbody hts) hts
    have hmore := hafter (hitem.goesOn.not_withoutEnd hts)
    rw [passage_item ls hterm hend]
    exact hitem.append hmore

end Watershed.Grammar
