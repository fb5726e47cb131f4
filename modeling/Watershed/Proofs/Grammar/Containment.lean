import Mathlib.Data.List.Basic
import Watershed.Proofs.Grammar.Foresight

/-!
# Errors stay on their lines

A terminator outside of all blocks cuts a program in two: what is read up to it, statements and
errors alike, does not depend on what follows, and what follows is read as if it stood alone. For
neither a statement nor the recovery from one reads past a terminator, so the only way for an error
to touch later lines is a block left open, which is reported at the end.
-/

set_option autoImplicit false

namespace Watershed.Grammar

/-! ## Reading up to a terminator -/

/-- A passage that leaves more lexemes after the ones it left. -/
def Passage.leaving (p : Passage) (ys : List Lexeme) : Passage :=
  ⟨p.statements, p.errors, p.rest ++ ys⟩

section Terminator

variable {t : Lexeme} (ht : t.token.isTerminator = true)

include ht

/-- A terminator ends no passage, but only the statement before it. -/
theorem endsPassage_of_terminator (inBlock : Bool) : endsPassage inBlock t.token = false := by
  rcases isTerminator_iff.1 ht with h | h <;> rw [h] <;> rfl

/-- Recovery goes no further than a terminator. -/
theorem recover_append_terminator (inBlock : Bool) (back ys : List Lexeme) :
    recover inBlock (back ++ t :: ys) = recover inBlock (back ++ [t]) ++ ys := by
  have hends := endsPassage_of_terminator ht inBlock
  induction back with
  | nil => simp [recover, hends, ht]
  | cons k back ih =>
    have hhead : (back ++ t :: ys).head? = (back ++ [t]).head? :=
      Phrase.head?_append_congr back rfl
    rw [List.cons_append, List.cons_append, recover, recover, hhead]
    split
    · simp
    · split
      · simp
      · split
        · simp
        · exact ih

/-- The end of a statement is found, or missed, no matter what follows the terminator. -/
theorem statementEnd_append_terminator (back ys : List Lexeme) :
    ∃ outcome left, statementEnd (back ++ [t]) = ⟨outcome, left⟩ ∧
      statementEnd (back ++ t :: ys) = ⟨outcome, left ++ ys⟩ ∧
      ∀ wanted, outcome = .error wanted → left = back ++ [t] := by
  cases back with
  | nil => exact ⟨.ok (), [], by simp [statementEnd, ht], by simp [statementEnd, ht], by simp⟩
  | cons k back =>
    simp only [List.cons_append, statementEnd]
    split
    · exact ⟨.ok (), back ++ [t], rfl, by simp, by simp⟩
    · split
      · exact ⟨.ok (), k :: back ++ [t], rfl, by simp, by simp⟩
      · exact ⟨.error .endOfStatement, k :: back ++ [t], rfl, by simp, by simp⟩

/-- A statement is ended, or fails to be, no matter what follows the terminator. -/
theorem ended_append_terminator (outcome : Except Expectation Statement)
    (back ys : List Lexeme) :
    ∃ outcome' left, ended ⟨outcome, back ++ [t]⟩ = ⟨outcome', left⟩ ∧
      ended ⟨outcome, back ++ t :: ys⟩ = ⟨outcome', left ++ ys⟩ ∧
      ∀ wanted, outcome' = .error wanted → left = back ++ [t] := by
  cases outcome with
  | error wanted => exact ⟨.error wanted, back ++ [t], rfl, by simp [ended], fun _ _ => rfl⟩
  | ok s =>
    cases hblock : s.isBlock with
    | true =>
      exact ⟨.ok s, back ++ [t], by simp [ended, hblock], by simp [ended, hblock], by simp⟩
    | false =>
      obtain ⟨stop, left, hshort, hlong, hleft⟩ := statementEnd_append_terminator ht back ys
      refine ⟨stop.map fun _ => s, left, ?_, ?_, ?_⟩
      · simp [ended, hblock, hshort, Reading.map]
      · simp [ended, hblock, hlong, Reading.map]
      · intro wanted hstop
        cases stop with
        | ok u => cases hstop
        | error w => exact hleft w rfl

/-- A statement is concluded, or skipped, no matter what follows the terminator. -/
theorem conclude_append_terminator (inBlock : Bool) (outcome : Except Expectation Statement)
    (back ys : List Lexeme) (recorded : List GrammarError) :
    conclude inBlock ⟨⟨outcome, back ++ t :: ys⟩, recorded⟩ =
      (conclude inBlock ⟨⟨outcome, back ++ [t]⟩, recorded⟩).leaving ys := by
  obtain ⟨outcome', left, hshort, hlong, hleft⟩ := ended_append_terminator ht outcome back ys
  unfold conclude
  rw [hshort, hlong]
  cases outcome' with
  | ok s => rfl
  | error wanted =>
    obtain rfl := hleft wanted rfl
    have hhead : (back ++ t :: ys).head? = (back ++ [t]).head? :=
      Phrase.head?_append_congr back rfl
    simp only [List.append_assoc, List.singleton_append, hhead,
      recover_append_terminator ht inBlock back ys]
    rfl

/-! ## Items up to a terminator -/

/-- A phrase that looks one lexeme ahead stops before a terminator, and what follows the terminator
does not matter to it. -/
theorem phrase_append_terminator {α : Type} {p : Phrase α} (hp : p.LooksOneAhead)
    (xs : List Lexeme) :
    ∃ outcome back, p (xs ++ [t]) = ⟨outcome, back ++ [t]⟩ ∧
      ∀ ys, p (xs ++ t :: ys) = ⟨outcome, back ++ t :: ys⟩ := by
  obtain ⟨front, hsplit, hfront, hsettled⟩ := hp (xs ++ [t])
  cases hread : p (xs ++ [t]) with
  | mk outcome rest =>
    rw [hread] at hsplit hsettled
    have hsuffix : rest <:+ xs ++ [t] := ⟨front, hsplit.symm⟩
    rcases List.suffix_concat_iff.1 hsuffix with rfl | ⟨back, rfl, -⟩
    · have hmem : t ∈ front := by
        rw [List.append_nil] at hsplit
        simp [← hsplit]
      rw [hfront t hmem] at ht
      cases ht
    · refine ⟨outcome, back, rfl, fun ys => ?_⟩
      obtain rfl : xs = front ++ back := by
        rw [← List.append_assoc] at hsplit
        exact List.append_cancel_right hsplit
      have hhead : (back ++ t :: ys).head? = (back ++ [t]).head? :=
        Phrase.head?_append_congr back rfl
      rw [List.append_assoc]
      exact hsettled (back ++ t :: ys) hhead

/-! ## Passages up to a terminator -/

/-- What becomes of a passage up to a terminator if more lexemes follow: either it comes to the
terminator and goes on with them, or it ends before and leaves them unread. -/
def EndsOrGoesOn (inBlock : Bool) (xs : List Lexeme) (t : Lexeme) : Prop :=
  ((passage inBlock (xs ++ [t])).rest = [] ∧
    ∀ ys, passage inBlock (xs ++ t :: ys) =
      (passage inBlock (xs ++ [t])).followedBy (passage inBlock ys)) ∨
  ∃ k back, (passage inBlock (xs ++ [t])).rest = k :: back ++ [t] ∧
    endsPassage inBlock k.token = true ∧
    ∀ ys, passage inBlock (xs ++ t :: ys) = (passage inBlock (xs ++ [t])).leaving ys

/-- No block is left open among these errors. -/
def NoneOpen (errors : List GrammarError) : Prop :=
  ∀ e ∈ errors, e.wanted ≠ .closingBrace

omit ht in
/-- No block is left open among the errors of two lists if none is in either. -/
theorem noneOpen_append {es es' : List GrammarError} :
    NoneOpen (es ++ es') ↔ NoneOpen es ∧ NoneOpen es' := by
  simp [NoneOpen, or_imp, forall_and]

omit ht in
/-- A block whose body is read up to a closing brace is read as a whole. -/
theorem statement_of_closed {l k : Lexeme} {ls rest : List Lexeme} {ss : List Statement}
    {es : List GrammarError} (hopen : l.token = .sign .leftBrace)
    (hbody : passage true ls = ⟨ss, es, k :: rest⟩) (hclose : k.token = .sign .rightBrace) :
    statement (l :: ls) = ⟨⟨.ok (.block ss l.line), rest⟩, es⟩ := by
  rw [statement_cons, if_pos hopen, block, hbody, closeBlock]
  simp only [Phrase.sign, if_pos hclose]
  rfl

omit ht in
/-- The errors inside a block are errors of the item, and an open block adds one. -/
theorem noneOpen_of_block {inBlock : Bool} {l : Lexeme} {ls : List Lexeme}
    (hopen : l.token = .sign .leftBrace) (h : NoneOpen (item inBlock (l :: ls)).errors) :
    NoneOpen (passage true ls).errors ∧ (passage true ls).rest ≠ [] := by
  have hstatement : statement (l :: ls) = closeBlock l.line (passage true ls) := by
    rw [statement_cons, if_pos hopen]
    rfl
  unfold item at h
  rw [hstatement] at h
  cases hbody : passage true ls with
  | mk ss es rest =>
    rw [hbody] at h
    cases hsign : Phrase.sign .rightBrace .closingBrace rest with
    | mk outcome left =>
      cases outcome with
      | ok u =>
        obtain ⟨k, -, rfl⟩ := Phrase.sign_eq_ok_iff.1 hsign
        have herrors : (conclude inBlock (closeBlock l.line ⟨ss, es, k :: left⟩)).errors = es := by
          simp only [closeBlock, hsign]
          rfl
        rw [herrors] at h
        exact ⟨h, by simp⟩
      | error wanted =>
        obtain ⟨rfl, rfl, -⟩ := Phrase.sign_eq_error_iff.1 hsign
        have herrors : (conclude inBlock (closeBlock l.line ⟨ss, es, left⟩)).errors =
            es ++ [⟨.closingBrace, left.head?⟩] := by
          simp only [closeBlock, hsign]
          rfl
        rw [herrors, noneOpen_append] at h
        exact absurd rfl (h.2 ⟨.closingBrace, left.head?⟩ (by simp))

/-- A block that is not left open is read alike no matter what follows the terminator, if its body
comes to the terminator or ends before. -/
theorem item_append_terminator_block {inBlock : Bool} {l : Lexeme} {xs : List Lexeme}
    (hopen : l.token = .sign .leftBrace) (hxs : WithoutEnd xs)
    (hbody : NoneOpen (passage true (xs ++ [t])).errors → EndsOrGoesOn true xs t)
    (hclosed : NoneOpen (item inBlock (l :: (xs ++ [t]))).errors) (ys : List Lexeme) :
    item inBlock (l :: (xs ++ t :: ys)) = (item inBlock (l :: (xs ++ [t]))).leaving ys := by
  obtain ⟨hinside, hrest⟩ := noneOpen_of_block hopen hclosed
  rcases hbody hinside with ⟨hnil, -⟩ | ⟨k, back, hleft, hends, hlong⟩
  · exact absurd hnil hrest
  · have hclose : k.token = .sign .rightBrace := by
      have hmem : k ∈ xs ++ [t] := by
        apply (passage_rest_suffix true (xs ++ [t])).subset
        rw [hleft]
        simp
      rcases boundary_cases (.inr hends) with htoken | htoken | htoken | htoken
      · rw [htoken] at hends
        cases hends
      · rw [htoken] at hends
        cases hends
      · -- The end of the text is neither among the lexemes nor the terminator.
        rcases List.mem_append.1 hmem with hk | hk
        · exact absurd htoken (hxs k hk)
        · obtain rfl : k = t := by simpa using hk
          rw [endsPassage_of_terminator ht true] at hends
          cases hends
      · exact htoken
    have hlong := hlong ys
    cases hshort : passage true (xs ++ [t]) with
    | mk ss es rest =>
      rw [hshort] at hleft hlong
      obtain rfl : rest = k :: back ++ [t] := hleft
      have hlong : passage true (xs ++ t :: ys) = ⟨ss, es, k :: (back ++ t :: ys)⟩ := by
        simpa [Passage.leaving] using hlong
      rw [item, item, statement_of_closed hopen hlong hclose,
        statement_of_closed hopen hshort hclose]
      exact conclude_append_terminator ht inBlock _ back ys es

/-- A simple statement is read alike no matter what follows the terminator. -/
theorem item_append_terminator_simple {inBlock : Bool} {l : Lexeme} {xs : List Lexeme}
    (hopen : l.token ≠ .sign .leftBrace) (ys : List Lexeme) :
    item inBlock (l :: (xs ++ t :: ys)) = (item inBlock (l :: (xs ++ [t]))).leaving ys := by
  obtain ⟨outcome, back, hshort, hlong⟩ :=
    phrase_append_terminator ht looksOneAhead_simplePhrase (l :: xs)
  have hshort : simpleStatement l (xs ++ [t]) = ⟨outcome, back ++ [t]⟩ := hshort
  have hlong : simpleStatement l (xs ++ t :: ys) = ⟨outcome, back ++ t :: ys⟩ := hlong ys
  rw [item, item, statement_cons, statement_cons, if_neg hopen, if_neg hopen, hshort, hlong]
  exact conclude_append_terminator ht inBlock outcome back ys []

/-- Any statement that leaves no block open is read alike no matter what follows the terminator. -/
theorem item_append_terminator {inBlock : Bool} {l : Lexeme} {xs : List Lexeme}
    (hxs : WithoutEnd xs)
    (hbody : NoneOpen (passage true (xs ++ [t])).errors → EndsOrGoesOn true xs t)
    (hclosed : NoneOpen (item inBlock (l :: (xs ++ [t]))).errors) (ys : List Lexeme) :
    item inBlock (l :: (xs ++ t :: ys)) = (item inBlock (l :: (xs ++ [t]))).leaving ys := by
  by_cases hopen : l.token = .sign .leftBrace
  · exact item_append_terminator_block ht hopen hxs hbody hclosed ys
  · exact item_append_terminator_simple ht hopen ys

omit ht in
/-- A passage that ends at its first lexeme leaves the terminator and what follows it. -/
theorem endsOrGoesOn_of_end {inBlock : Bool} {l : Lexeme} (xs : List Lexeme)
    (hend : endsPassage inBlock l.token = true) : EndsOrGoesOn inBlock (l :: xs) t := by
  have hrest (us : List Lexeme) : passage inBlock (l :: us) = ⟨[], [], l :: us⟩ := by
    apply passage_end
    intro k hk
    cases hk
    exact hend
  unfold EndsOrGoesOn
  simp only [List.cons_append, hrest]
  exact .inr ⟨l, xs, rfl, hend, fun ys => by simp [Passage.leaving]⟩

/-- A passage comes to the terminator or ends before it, if the passage behind its first statement
does. -/
theorem endsOrGoesOn_of_item {inBlock : Bool} {l : Lexeme} {xs : List Lexeme}
    (hterm : l.token.isTerminator = false) (hend : endsPassage inBlock l.token = false)
    (hxs : WithoutEnd (l :: xs))
    (hbody : NoneOpen (passage true (xs ++ [t])).errors → EndsOrGoesOn true xs t)
    (hafter : ∀ back, WithoutEnd back → back ++ [t] = (item inBlock (l :: (xs ++ [t]))).rest →
      NoneOpen (passage inBlock (item inBlock (l :: (xs ++ [t]))).rest).errors →
      EndsOrGoesOn inBlock back t)
    (hclosed : NoneOpen (passage inBlock (l :: (xs ++ [t]))).errors) :
    EndsOrGoesOn inBlock (l :: xs) t := by
  unfold EndsOrGoesOn
  rw [List.cons_append, passage_item (xs ++ [t]) hterm hend]
  rw [passage_item (xs ++ [t]) hterm hend] at hclosed
  obtain ⟨hfirst, hmore⟩ := noneOpen_append.1 hclosed
  have hlong (ys : List Lexeme) : passage inBlock (l :: xs ++ t :: ys) =
      ((item inBlock (l :: (xs ++ [t]))).leaving ys).followedBy
        (passage inBlock ((item inBlock (l :: (xs ++ [t]))).rest ++ ys)) := by
    have hitem := item_append_terminator ht (withoutEnd_cons.1 hxs).2 hbody hfirst ys
    rw [List.cons_append, passage_item _ hterm hend, hitem]
    rfl
  have hsuffix : (item inBlock (l :: (xs ++ [t]))).rest <:+ (l :: xs) ++ [t] :=
    conclude_rest_suffix inBlock (readStatement l (xs ++ [t])).property
  generalize item inBlock (l :: (xs ++ [t])) = first at *
  obtain ⟨ss, es, rest⟩ := first
  rcases List.suffix_concat_iff.1 hsuffix with rfl | ⟨back, rfl, hback⟩
  · -- The item takes up the terminator, and what follows is read next.
    left
    have hnil : passage inBlock [] = ⟨[], [], []⟩ := passage_end fun k hk => by cases hk
    simp only [hnil]
    refine ⟨rfl, fun ys => ?_⟩
    rw [hlong]
    simp [Passage.followedBy, Passage.leaving]
  · have hbackEnd : WithoutEnd back := fun k hk => hxs k (hback.subset hk)
    have hjoin (ys : List Lexeme) : back ++ [t] ++ ys = back ++ t :: ys := by simp
    rcases hafter back hbackEnd rfl hmore with ⟨hnil, hnext⟩ | ⟨k, back', hleft, hk, hnext⟩
    · refine .inl ⟨hnil, fun ys => ?_⟩
      rw [hlong, hjoin, hnext]
      simp [Passage.followedBy, Passage.leaving]
    · refine .inr ⟨k, back', hleft, hk, fun ys => ?_⟩
      rw [hlong, hjoin, hnext]
      simp [Passage.followedBy, Passage.leaving]

/-- A passage up to a terminator that leaves no block open is read in the same way whatever
follows. -/
theorem endsOrGoesOn (inBlock : Bool) (xs : List Lexeme) (hxs : WithoutEnd xs)
    (hclosed : NoneOpen (passage inBlock (xs ++ [t])).errors) : EndsOrGoesOn inBlock xs t := by
  generalize hts : xs ++ [t] = ts at hclosed
  induction inBlock, ts using passage_induction generalizing xs with
  | finished inBlock ts hrest =>
    subst hts
    cases xs with
    | nil =>
      have hend := hrest t rfl
      rw [endsPassage_of_terminator ht inBlock] at hend
      cases hend
    | cons l xs => exact endsOrGoesOn_of_end xs (hrest l rfl)
  | terminator inBlock l ls hterm ih =>
    cases xs with
    | nil =>
      cases hts
      have halone : passage inBlock [t] = ⟨[], [], []⟩ := by
        rw [passage_terminator inBlock [] ht, passage_end fun k hk => by cases hk]
      unfold EndsOrGoesOn
      rw [List.nil_append, halone]
      exact .inl ⟨rfl, fun ys => passage_terminator inBlock ys ht⟩
    | cons k xs =>
      cases hts
      rw [passage_terminator inBlock _ hterm] at hclosed
      unfold EndsOrGoesOn
      simp only [List.cons_append, passage_terminator inBlock _ hterm]
      exact ih xs (withoutEnd_cons.1 hxs).2 rfl hclosed
  | begun inBlock l ls hterm hend hbody hafter =>
    cases xs with
    | nil =>
      cases hts
      rw [ht] at hterm
      cases hterm
    | cons k xs =>
      cases hts
      have hinside := hbody xs (withoutEnd_cons.1 hxs).2 rfl
      exact endsOrGoesOn_of_item ht hterm hend hxs hinside hafter hclosed

end Terminator

/-! ## Programs cut at a terminator -/

/-- Without the end of the text, nothing up to a terminator ends a program. -/
theorem endsPassage_false_of_withoutEnd {xs : List Lexeme} {t k : Lexeme} (hxs : WithoutEnd xs)
    (ht : t.token.isTerminator = true) (hk : k ∈ xs ++ [t]) :
    endsPassage false k.token = false := by
  rcases List.mem_append.1 hk with hk | hk
  · rw [Bool.eq_false_iff]
    exact fun hend => hxs k hk (endsPassage_false_iff.1 hend)
  · obtain rfl : k = t := by simpa using hk
    exact endsPassage_of_terminator ht false

/-- Up to a terminator that leaves no block open, a program is read as if nothing followed, and what
follows is read as if it stood alone: the statements of the two parts follow each other, and so do
their errors. -/
theorem program_cut_at_terminator (xs : List Lexeme) (t : Lexeme) (ys : List Lexeme)
    (hxs : WithoutEnd xs) (ht : t.token = .lineBreak ∨ t.token = .sign .semicolon)
    (hclosed : ∀ e ∈ (passage false (xs ++ [t])).errors, e.wanted ≠ .closingBrace) :
    (passage false (xs ++ [t] ++ ys)).statements =
        (passage false (xs ++ [t])).statements ++ (passage false ys).statements ∧
      (passage false (xs ++ [t] ++ ys)).errors =
        (passage false (xs ++ [t])).errors ++ (passage false ys).errors := by
  have hterm : t.token.isTerminator = true := isTerminator_iff.2 ht
  have hjoin : xs ++ [t] ++ ys = xs ++ t :: ys := by simp
  rw [hjoin]
  rcases endsOrGoesOn hterm false xs hxs hclosed with ⟨-, hnext⟩ | ⟨k, back, hleft, hk, -⟩
  · rw [hnext]
    exact ⟨rfl, rfl⟩
  · -- Outside of blocks nothing but the end of the text ends a passage.
    have hmem : k ∈ xs ++ [t] := by
      apply (passage_rest_suffix false (xs ++ [t])).subset
      rw [hleft]
      simp
    rw [endsPassage_false_of_withoutEnd hxs hterm hmem] at hk
    cases hk

/-- The part up to the line break holds a flow without an arrow, in a block that is closed, and a
river without a name. Both errors are recorded, and the output on the next line is read as if it
stood alone. -/
theorem program_cut_at_terminator_malformed :
    let xs : List Lexeme :=
      [⟨.sign .leftBrace, "\x7b", 1⟩, ⟨.keyword .flow, "flow", 1⟩, ⟨.name "A", "A", 1⟩,
        ⟨.sign .rightBrace, "\x7d", 1⟩, ⟨.keyword .river, "river", 1⟩]
    let t : Lexeme := ⟨.lineBreak, "\n", 1⟩
    let ys : List Lexeme := [⟨.keyword .output, "output", 2⟩, ⟨.name "A", "A", 2⟩]
    (passage false (xs ++ [t])).errors.length = 2 ∧
      (passage false (xs ++ [t] ++ ys)).statements =
        (passage false (xs ++ [t])).statements ++ (passage false ys).statements ∧
      (passage false (xs ++ [t] ++ ys)).errors =
        (passage false (xs ++ [t])).errors ++ (passage false ys).errors := by
  intro xs t ys
  have herrors : (passage false (xs ++ [t])).errors =
      [⟨.arrowAfterSource, some ⟨.sign .rightBrace, "\x7d", 1⟩⟩,
        ⟨.riverAfter .river, some ⟨.lineBreak, "\n", 1⟩⟩] := by
    cbv
  refine ⟨by rw [herrors]; rfl, program_cut_at_terminator xs t ys ?_ (.inl rfl) ?_⟩
  · simp [xs, WithoutEnd]
  · rw [herrors]
    simp

end Watershed.Grammar
