import Mathlib.Data.List.Basic
import Watershed.Proofs.Grammar.Foresight

/-!
# The first error of a program

The first error recorded for a program points at the first lexeme with which no program goes on.
What stands before that lexeme is the beginning of a program without errors, and with the lexeme it
is not, whatever follows.

The place of an error is told apart from the list it was found in: lexemes break off at an error
(`BreaksOff`) if they can be completed to items, while every list that goes on with the lexeme
found records the error first. A passage with an error breaks off after some front part
(`breaksOff_of_errors`), which is shown statement by statement.
-/

set_option autoImplicit false

namespace Watershed.Grammar

/-! ## Passages that break off -/

/-- Lexemes of a passage break off at an error if they are the beginning of items, and if the
error is the first one recorded wherever the lexeme it found comes next. -/
structure BreaksOff (inBlock : Bool) (p : List Lexeme) (e : GrammarError) : Prop where
  completed : ∃ q ss, Items (p ++ q) ss
  recorded : ∀ rest, rest.head? = e.found → (passage inBlock (p ++ rest)).errors.head? = some e

/-- The first error of an item is the first error of the passage that begins with it. -/
theorem errors_head?_of_item {inBlock : Bool} {l : Lexeme} {ls : List Lexeme} {e : GrammarError}
    (hterm : l.token.isTerminator = false) (hend : endsPassage inBlock l.token = false)
    (h : (item inBlock (l :: ls)).errors.head? = some e) :
    (passage inBlock (l :: ls)).errors.head? = some e := by
  rw [passage_item ls hterm hend]
  simp [Passage.followedBy, List.head?_append, h]

/-- An item without errors leaves the first error to the passage that follows. -/
theorem errors_head?_of_item_ok {inBlock : Bool} {l : Lexeme} {ls rest : List Lexeme}
    {ss : List Statement} (hterm : l.token.isTerminator = false)
    (hend : endsPassage inBlock l.token = false)
    (hitem : item inBlock (l :: ls) = ⟨ss, [], rest⟩) :
    (passage inBlock (l :: ls)).errors.head? = (passage inBlock rest).errors.head? := by
  rw [passage_item ls hterm hend, hitem]
  rfl

/-- The errors recorded inside a block come before those of the block itself. -/
theorem item_errors_head?_of_block {inBlock : Bool} {l : Lexeme} {ls : List Lexeme}
    {e : GrammarError} (hopen : l.token = .sign .leftBrace)
    (h : (passage true ls).errors.head? = some e) :
    (item inBlock (l :: ls)).errors.head? = some e := by
  have hrecorded : (statement (l :: ls)).recorded = (passage true ls).errors := by
    rw [statement_cons, if_pos hopen]
    rfl
  unfold item conclude
  split
  · rw [hrecorded]
    exact h
  · rw [hrecorded]
    simp [List.head?_append, h]

/-- A block without errors inside that is not closed has one error, which wants the closing brace.
-/
theorem item_errors_of_unclosed {inBlock : Bool} {l : Lexeme} {ls rest : List Lexeme}
    {inner : List Statement} (hopen : l.token = .sign .leftBrace)
    (hbody : passage true ls = ⟨inner, [], rest⟩)
    (hother : ∀ m ∈ rest.head?, m.token ≠ .sign .rightBrace) :
    (item inBlock (l :: ls)).errors = [⟨.closingBrace, rest.head?⟩] := by
  have hsign : Phrase.sign .rightBrace .closingBrace rest = ⟨.error .closingBrace, rest⟩ :=
    Phrase.sign_eq_error_iff.2 ⟨rfl, rfl, hother⟩
  rw [item, statement_cons, if_pos hopen, block, hbody, closeBlock, hsign]
  rfl

/-- A simple statement that cannot be read has one error, which wants what the reading wanted. -/
theorem item_errors_of_failed {inBlock : Bool} {l : Lexeme} {ls rest : List Lexeme}
    {wanted : Expectation} (hopen : l.token ≠ .sign .leftBrace)
    (hread : simpleStatement l ls = ⟨.error wanted, rest⟩) :
    (item inBlock (l :: ls)).errors = [⟨wanted, rest.head?⟩] := by
  rw [item, statement_cons, if_neg hopen, hread]
  rfl

/-- A simple statement that is read and not ended has one error, which wants its end. -/
theorem item_errors_of_unended {inBlock : Bool} {l : Lexeme} {ls mid : List Lexeme}
    {s : Statement} (hopen : l.token ≠ .sign .leftBrace)
    (hread : simpleStatement l ls = ⟨.ok s, mid⟩) (hsimple : s.isBlock = false)
    (hend : statementEnd mid = ⟨.error .endOfStatement, mid⟩) :
    (item inBlock (l :: ls)).errors = [⟨.endOfStatement, mid.head?⟩] := by
  have hended : ended ⟨.ok s, mid⟩ = ⟨.error .endOfStatement, mid⟩ := by
    simp only [ended, hsimple, hend]
    rfl
  rw [item, statement_cons, if_neg hopen, hread]
  simp only [conclude, hended, List.nil_append]

/-! ## What stands before the error -/

namespace BreaksOff

variable {inBlock : Bool} {p : List Lexeme} {e : GrammarError}

/-- Lexemes break off also behind a terminator. -/
theorem terminator {l : Lexeme} (h : BreaksOff inBlock p e)
    (hl : l.token = .lineBreak ∨ l.token = .sign .semicolon) : BreaksOff inBlock (l :: p) e where
  completed := by
    obtain ⟨q, ss, hq⟩ := h.completed
    exact ⟨q, ss, .terminator hl hq⟩
  recorded rest hhead := by
    rw [List.cons_append, passage_terminator inBlock _ (isTerminator_iff.2 hl)]
    exact h.recorded rest hhead

/-- Lexemes break off also behind a block. -/
theorem block {l m : Lexeme} {body : List Lexeme} {inner : List Statement}
    (h : BreaksOff inBlock p e) (hopen : l.token = .sign .leftBrace) (hbody : Items body inner)
    (hclose : m.token = .sign .rightBrace) : BreaksOff inBlock (l :: body ++ m :: p) e where
  completed := by
    obtain ⟨q, ss, hq⟩ := h.completed
    exact ⟨q, _, by simpa using Items.block hopen hbody hclose hq⟩
  recorded rest hhead := by
    have hinside : passage true (body ++ m :: (p ++ rest)) = ⟨inner, [], m :: (p ++ rest)⟩ := by
      apply passage_append hbody
      intro k hk
      cases hk
      rw [hclose]
      rfl
    have hitem := item_block inBlock hopen hinside hclose
    rw [List.append_assoc, List.cons_append, List.cons_append,
      errors_head?_of_item_ok (by rw [hopen]; rfl) (by rw [hopen]; rfl) hitem]
    exact h.recorded rest hhead

/-- Lexemes break off also behind a simple statement with its terminator. -/
theorem simple {q : List Lexeme} {s : Statement} {l : Lexeme} (h : BreaksOff inBlock p e)
    (hsimple : Simple q s) (hl : l.token = .lineBreak ∨ l.token = .sign .semicolon) :
    BreaksOff inBlock (q ++ l :: p) e where
  completed := by
    obtain ⟨r, ss, hr⟩ := h.completed
    exact ⟨r, _, by simpa using Items.simple hsimple hl hr⟩
  recorded rest hhead := by
    obtain ⟨k, q, rfl, hbegins⟩ := hsimple.begins
    obtain ⟨hterm, hopen, hend⟩ := beginsSimple_facts hbegins
    have hread := simpleStatement_append hsimple (atBoundary_of_terminator (p ++ rest) hl)
    have hitem := item_simple inBlock hopen hread hsimple.isBlock_eq_false
      (if_pos (isTerminator_iff.2 hl))
    rw [List.append_assoc, List.cons_append, List.cons_append,
      errors_head?_of_item_ok hterm (hend inBlock) hitem]
    exact h.recorded rest hhead

/-- A simple statement ends before a closing brace, also outside of blocks, where the brace is the
error. -/
theorem last {q : List Lexeme} {s : Statement} (h : BreaksOff inBlock [] e)
    (hsimple : Simple q s) (hfound : ∀ l ∈ e.found, endsPassage true l.token = true) :
    BreaksOff inBlock q e where
  completed := ⟨[], [s], by simpa using Items.last hsimple⟩
  recorded rest hhead := by
    obtain ⟨k, q, rfl, hbegins⟩ := hsimple.begins
    obtain ⟨hterm, hopen, hend⟩ := beginsSimple_facts hbegins
    rw [← hhead] at hfound
    have hread := simpleStatement_append hsimple (atBoundary_of_end hfound)
    have hitem := item_simple inBlock hopen hread hsimple.isBlock_eq_false
      (statementEnd_of_end hfound)
    rw [List.cons_append, errors_head?_of_item_ok hterm (hend inBlock) hitem]
    exact h.recorded rest hhead

/-- A block breaks off where its body does. -/
theorem inside {l : Lexeme} (h : BreaksOff true p e) (hopen : l.token = .sign .leftBrace) :
    BreaksOff inBlock (l :: p) e where
  completed := by
    obtain ⟨q, ss, hq⟩ := h.completed
    have hblock := Items.block (m := aSign .rightBrace) hopen hq rfl .nil
    exact ⟨q ++ [aSign .rightBrace], _, by simpa using hblock⟩
  recorded rest hhead := by
    refine errors_head?_of_item (by rw [hopen]; rfl) (by rw [hopen]; rfl) ?_
    exact item_errors_head?_of_block hopen (h.recorded rest hhead)

/-- A block whose body ends without a closing brace breaks off there. -/
theorem unclosed {l : Lexeme} {body : List Lexeme} {inner : List Statement}
    {found : Option Lexeme} (hopen : l.token = .sign .leftBrace) (hbody : Items body inner)
    (hfound : ∀ m ∈ found, endsPassage true m.token = true ∧ m.token ≠ .sign .rightBrace) :
    BreaksOff inBlock (l :: body) ⟨.closingBrace, found⟩ where
  completed := by
    have hblock := Items.block (m := aSign .rightBrace) hopen hbody rfl .nil
    exact ⟨[aSign .rightBrace], _, by simpa using hblock⟩
  recorded rest hhead := by
    have hhead : rest.head? = found := hhead
    subst hhead
    have hinside : passage true (body ++ rest) = ⟨inner, [], rest⟩ :=
      passage_append hbody fun m hm => (hfound m hm).1
    rw [List.cons_append]
    refine errors_head?_of_item (by rw [hopen]; rfl) (by rw [hopen]; rfl) ?_
    rw [item_errors_of_unclosed hopen hinside fun m hm => (hfound m hm).2]
    rfl

end BreaksOff

/-- A simple statement that cannot be read breaks off where its reading failed. -/
theorem breaksOff_of_failed {inBlock : Bool} {l : Lexeme} {ls rest : List Lexeme}
    {wanted : Expectation} (hterm : l.token.isTerminator = false)
    (hend : endsPassage inBlock l.token = false) (hopen : l.token ≠ .sign .leftBrace)
    (hread : simpleStatement l ls = ⟨.error wanted, rest⟩) :
    ∃ p, l :: ls = p ++ rest ∧ BreaksOff inBlock p ⟨wanted, rest.head?⟩ := by
  obtain ⟨p, hsplit, hsettled⟩ := simpleStatement_settled hread
  refine ⟨p, hsplit, ?_, ?_⟩
  · obtain ⟨q, r, s, hq, hs⟩ := simple_completed hread
    obtain rfl : p = q := List.append_cancel_right (hsplit.symm.trans hq)
    exact ⟨r, [s], .last hs⟩
  · intro rest' hhead
    have hhead : rest'.head? = rest.head? := hhead
    obtain ⟨us, hus, hfails⟩ := hsettled rest' hhead
    rw [hus]
    refine errors_head?_of_item hterm hend ?_
    rw [item_errors_of_failed hopen hfails, hhead]
    rfl

/-- Whether the end of a statement is missed depends on the first lexeme alone. -/
theorem statementEnd_congr {mid mid' : List Lexeme}
    (h : statementEnd mid = ⟨.error .endOfStatement, mid⟩) (hhead : mid'.head? = mid.head?) :
    statementEnd mid' = ⟨.error .endOfStatement, mid'⟩ := by
  cases mid with
  | nil => cases h
  | cons k mid =>
    obtain ⟨us, rfl⟩ := head?_cases hhead
    simp only [statementEnd] at h ⊢
    split at h
    · cases h
    · rename_i hterm
      split at h
      · cases h
      · rename_i hend
        rw [if_neg hterm, if_neg hend]

/-- A simple statement that is not ended breaks off behind it. -/
theorem breaksOff_of_unended {inBlock : Bool} {l : Lexeme} {ls mid : List Lexeme} {s : Statement}
    (hterm : l.token.isTerminator = false) (hend : endsPassage inBlock l.token = false)
    (hopen : l.token ≠ .sign .leftBrace) (hread : simpleStatement l ls = ⟨.ok s, mid⟩)
    (hunended : statementEnd mid = ⟨.error .endOfStatement, mid⟩) :
    ∃ p, l :: ls = p ++ mid ∧ BreaksOff inBlock p ⟨.endOfStatement, mid.head?⟩ := by
  obtain ⟨p, hsplit, hsettled⟩ := simpleStatement_settled hread
  obtain ⟨q, hq, hs⟩ := simple_of_read hread
  obtain rfl : p = q := List.append_cancel_right (hsplit.symm.trans hq)
  refine ⟨p, hsplit, ⟨[], [s], by simpa using Items.last hs⟩, ?_⟩
  intro rest hhead
  have hhead : rest.head? = mid.head? := hhead
  obtain ⟨us, hus, hreads⟩ := hsettled rest hhead
  rw [hus]
  refine errors_head?_of_item hterm hend ?_
  rw [item_errors_of_unended hopen hreads hs.isBlock_eq_false (statementEnd_congr hunended hhead),
    hhead]
  rfl

/-! ## Every passage with an error breaks off -/

/-- The passages of these lexemes break off at their first errors. -/
def BreaksOffAtFirst (inBlock : Bool) (ts : List Lexeme) : Prop :=
  ∀ e, (passage inBlock ts).errors.head? = some e →
    ∃ p rest, ts = p ++ rest ∧ e.found = rest.head? ∧ BreaksOff inBlock p e

/-- Where the end of a statement is missed, nothing is read. -/
theorem statementEnd_of_error {mid rest : List Lexeme} {wanted : Expectation}
    (h : statementEnd mid = ⟨.error wanted, rest⟩) : wanted = .endOfStatement ∧ rest = mid := by
  unfold statementEnd at h
  split at h
  · cases h
  · split at h
    · cases h
    · split at h
      · cases h
      · cases h
        exact ⟨rfl, rfl⟩

/-- A block with an error breaks off at its first error, if its body does. -/
theorem breaksOff_of_block {inBlock : Bool} {l : Lexeme} {ls : List Lexeme} {e : GrammarError}
    (hopen : l.token = .sign .leftBrace) (hbody : BreaksOffAtFirst true ls)
    (h : (item inBlock (l :: ls)).errors.head? = some e) :
    ∃ p rest, l :: ls = p ++ rest ∧ e.found = rest.head? ∧ BreaksOff inBlock p e := by
  cases hinside : (passage true ls).errors.head? with
  | some e' =>
    -- The first error was recorded inside the block.
    obtain rfl : e' = e := by
      rw [item_errors_head?_of_block hopen hinside] at h
      exact Option.some.inj h
    obtain ⟨p, rest, rfl, hfound, hp⟩ := hbody e' hinside
    exact ⟨l :: p, rest, rfl, hfound, hp.inside hopen⟩
  | none =>
    -- The block is not closed.
    have herrors : (passage true ls).errors = [] := List.head?_eq_none_iff.1 hinside
    obtain ⟨body, hls, hitems, hends⟩ := items_of_errors_eq_nil herrors
    cases hpassage : passage true ls with
    | mk inner errors rest =>
      rw [hpassage] at herrors hls hitems hends
      obtain rfl : errors = [] := herrors
      have hother : ∀ m ∈ rest.head?, m.token ≠ .sign .rightBrace := by
        intro m hm hclose
        cases rest with
        | nil => cases hm
        | cons k rest =>
          cases hm
          rw [item_block inBlock hopen hpassage hclose] at h
          cases h
      rw [item_errors_of_unclosed hopen hpassage hother] at h
      cases h
      refine ⟨l :: body, rest, congrArg (l :: ·) hls, rfl, ?_⟩
      exact .unclosed hopen hitems fun m hm => ⟨hends m hm, hother m hm⟩

/-- An item with an error breaks off at its first error, if the bodies of blocks do. -/
theorem breaksOff_of_item {inBlock : Bool} {l : Lexeme} {ls : List Lexeme} {e : GrammarError}
    (hterm : l.token.isTerminator = false) (hend : endsPassage inBlock l.token = false)
    (hbody : BreaksOffAtFirst true ls) (h : (item inBlock (l :: ls)).errors.head? = some e) :
    ∃ p rest, l :: ls = p ++ rest ∧ e.found = rest.head? ∧ BreaksOff inBlock p e := by
  by_cases hopen : l.token = .sign .leftBrace
  · exact breaksOff_of_block hopen hbody h
  · cases hread : simpleStatement l ls with
    | mk outcome mid =>
      cases outcome with
      | error wanted =>
        rw [item_errors_of_failed hopen hread] at h
        cases h
        obtain ⟨p, hsplit, hp⟩ := breaksOff_of_failed hterm hend hopen hread
        exact ⟨p, mid, hsplit, rfl, hp⟩
      | ok s =>
        obtain ⟨q, -, hs⟩ := simple_of_read hread
        cases hstop : statementEnd mid with
        | mk outcome rest =>
          cases outcome with
          | ok u =>
            rw [item_simple inBlock hopen hread hs.isBlock_eq_false hstop] at h
            cases h
          | error wanted =>
            obtain ⟨rfl, rfl⟩ := statementEnd_of_error hstop
            rw [item_errors_of_unended hopen hread hs.isBlock_eq_false hstop] at h
            cases h
            obtain ⟨p, hsplit, hp⟩ := breaksOff_of_unended hterm hend hopen hread hstop
            exact ⟨p, rest, hsplit, rfl, hp⟩

/-- Where an item has no errors, the passage breaks off as what follows the item does. -/
theorem breaksOff_after_item {inBlock : Bool} {l : Lexeme} {ls : List Lexeme} {e : GrammarError}
    (hmore : BreaksOffAtFirst inBlock (item inBlock (l :: ls)).rest)
    (hitem : (item inBlock (l :: ls)).errors = [])
    (h : (passage inBlock (item inBlock (l :: ls)).rest).errors.head? = some e) :
    ∃ p rest, l :: ls = p ++ rest ∧ e.found = rest.head? ∧ BreaksOff inBlock p e := by
  obtain ⟨p, rest, hsplit, hfound, hp⟩ := hmore e h
  rcases item_cases hitem with ⟨m, inner, after, hopen, hbody, hclose, heq⟩ |
    ⟨s, q, mid, after, hq, hsimple, hstop, heq⟩
  · have hbodyErrors : (passage true ls).errors = [] := by rw [hbody]
    obtain ⟨body, hls, hitems, -⟩ := items_of_errors_eq_nil hbodyErrors
    rw [hbody] at hls hitems
    rw [heq] at hsplit
    have hsplit : after = p ++ rest := hsplit
    refine ⟨l :: body ++ m :: p, rest, ?_, hfound, hp.block hopen hitems hclose⟩
    rw [hls, hsplit]
    simp
  · rw [heq] at hsplit
    have hsplit : after = p ++ rest := hsplit
    rcases statementEnd_cases hstop with ⟨k, hk, rfl⟩ | ⟨rfl, hboundary⟩
    · refine ⟨q ++ k :: p, rest, ?_, hfound, hp.simple hsimple hk⟩
      rw [hq, hsplit]
      simp
    · cases p with
      | nil =>
        have hsplit : mid = rest := hsplit
        subst hsplit
        refine ⟨q, mid, hq, hfound, hp.last hsimple ?_⟩
        rw [hfound]
        exact hboundary
      | cons k p =>
        -- Nothing that ends a passage begins an item, so nothing was read after the statement.
        obtain ⟨r, ss, hr⟩ := hp.completed
        have hk : endsPassage true k.token = true := by
          apply hboundary
          rw [hsplit]
          rfl
        rw [hr.ends_eq_false] at hk
        cases hk

/-- Every passage with an error breaks off at its first error. -/
theorem breaksOff_of_errors (inBlock : Bool) (ts : List Lexeme) : BreaksOffAtFirst inBlock ts := by
  induction inBlock, ts using passage_induction with
  | finished inBlock ts hrest =>
    intro e h
    rw [passage_end hrest] at h
    cases h
  | terminator inBlock l ls hterm ih =>
    intro e h
    rw [passage_terminator inBlock ls hterm] at h
    obtain ⟨p, rest, rfl, hfound, hp⟩ := ih e h
    exact ⟨l :: p, rest, rfl, hfound, hp.terminator (isTerminator_iff.1 hterm)⟩
  | begun inBlock l ls hterm hend hbody hmore =>
    intro e h
    cases herrors : (item inBlock (l :: ls)).errors with
    | nil =>
      rw [passage_item ls hterm hend] at h
      simp only [Passage.followedBy, herrors, List.nil_append] at h
      exact breaksOff_after_item hmore herrors h
    | cons e' es =>
      have hfirst : (item inBlock (l :: ls)).errors.head? = some e' := by
        rw [herrors]
        rfl
      obtain rfl : e' = e := by
        rw [errors_head?_of_item hterm hend hfirst] at h
        exact Option.some.inj h
      exact breaksOff_of_item hterm hend hbody hfirst

/-! ## The first error of a program -/

/-- Lexemes that are read as a program without an error. -/
def Accepted (ts : List Lexeme) : Prop :=
  WithoutEnd ts ∧
    ∀ last : Lexeme, last.token = .endOfText → (passage false (ts ++ [last])).errors = []

/-- Items are read as a program without errors. -/
theorem Items.accepted {ts : List Lexeme} {ss : List Statement} (h : Items ts ss) :
    Accepted ts := by
  refine ⟨h.withoutEnd, fun last hlast => ?_⟩
  rw [passage_append h]
  intro l hl
  cases hl
  exact endsPassage_false_iff.2 hlast

/-- Where a program with its end is split before a lexeme, the lexeme is the end exactly if all of
the program stands before it. -/
theorem split_at_end {ts p rest : List Lexeme} {last l : Lexeme} (hts : WithoutEnd ts)
    (hsplit : ts ++ [last] = p ++ l :: rest) (hl : l.token = .endOfText) : p = ts ∧ l = last := by
  rcases List.append_eq_append_iff.1 hsplit with ⟨a, rfl, ha⟩ | ⟨c, rfl, hc⟩
  · cases a with
    | nil =>
      cases ha
      exact ⟨List.append_nil _, rfl⟩
    | cons k a => simp at ha
  · cases c with
    | nil =>
      cases hc
      exact ⟨(List.append_nil _).symm, rfl⟩
    | cons k c =>
      cases hc
      exact absurd hl (hts l (by simp))

/-- An error points at a lexeme if it gives the line of the lexeme and shows its spelling, but a
line break as `\n` and the end of the text as the end. -/
def PointsAt (e : GrammarError) (l : Lexeme) : Prop :=
  e.line = l.line ∧
    e.place =
      if l.token = .endOfText then "end"
      else if l.token = .lineBreak then "'\\n'"
      else "'" ++ l.spelling ++ "'"

/-- An error points at the lexeme it found. -/
theorem pointsAt_of_found {e : GrammarError} {l : Lexeme} (h : e.found = some l) :
    PointsAt e l := by
  unfold PointsAt GrammarError.line GrammarError.place
  rw [h]
  refine ⟨rfl, ?_⟩
  obtain ⟨token, spelling, line⟩ := l
  cases token <;> rfl

/-- The first error of a program points, by what it shows and by its line, at the first lexeme with
which no program goes on: the lexemes before it begin a program without errors, and with it they
begin none. If the lexeme is the end of the text, then the whole program is such a beginning, but
is itself not without errors. -/
theorem first_error_earliest (ts : List Lexeme) (last : Lexeme) (hts : WithoutEnd ts)
    (hlast : last.token = .endOfText) (e : GrammarError)
    (h : (passage false (ts ++ [last])).errors.head? = some e) :
    ∃ p l rest, ts ++ [last] = p ++ l :: rest ∧ e.found = some l ∧ PointsAt e l ∧
      (∃ us, Accepted us ∧ p <+: us) ∧
      (∀ us, p ++ [l] <+: us → (passage false us).errors ≠ [] ∧ ¬ Accepted us) ∧
      (l.token = .endOfText → p = ts ∧ l = last ∧ ¬ Accepted ts) := by
  obtain ⟨p, rest, hsplit, hfound, hcompleted, hrecorded⟩ :=
    breaksOff_of_errors false (ts ++ [last]) e h
  obtain ⟨q, ss, hitems⟩ := hcompleted
  cases rest with
  | nil =>
    -- The end of the text would stand among items.
    have hmem : last ∈ p ++ q := by
      rw [List.append_nil] at hsplit
      simp [← hsplit]
    exact absurd hlast (hitems.withoutEnd last hmem)
  | cons l rest =>
    have hfound : e.found = some l := hfound
    have herrors (more : List Lexeme) : (passage false (p ++ l :: more)).errors ≠ [] := by
      intro hnil
      have hfirst := hrecorded (l :: more) hfound.symm
      rw [hnil] at hfirst
      cases hfirst
    refine ⟨p, l, rest, hsplit, hfound, pointsAt_of_found hfound, ?_, ?_, ?_⟩
    · exact ⟨p ++ q, hitems.accepted, List.prefix_append p q⟩
    · rintro us ⟨more, rfl⟩
      refine ⟨by simpa using herrors more, fun haccepted => ?_⟩
      apply herrors (more ++ [last])
      simpa using haccepted.2 last hlast
    · intro hl
      obtain ⟨rfl, rfl⟩ := split_at_end hts hsplit hl
      refine ⟨rfl, rfl, fun haccepted => ?_⟩
      rw [haccepted.2 l hlast] at h
      cases h

/-- The flow inside an open block wants an arrow where it finds `B`. This is the first of three
errors, and the block could still be completed before it. -/
theorem first_error_earliest_inside :
    let ts : List Lexeme :=
      [⟨.sign .leftBrace, "\x7b", 1⟩, ⟨.keyword .flow, "flow", 1⟩, ⟨.name "A", "A", 1⟩,
        ⟨.name "B", "B", 2⟩, ⟨.keyword .print, "print", 3⟩]
    let last : Lexeme := ⟨.endOfText, "", 4⟩
    ∃ p l rest, ts ++ [last] = p ++ l :: rest ∧ l = ⟨.name "B", "B", 2⟩ ∧
      (∃ us, Accepted us ∧ p <+: us) ∧ ∀ us, p ++ [l] <+: us → ¬ Accepted us := by
  intro ts last
  have hts : WithoutEnd ts := by
    simp [ts, WithoutEnd]
  have herrors : (passage false (ts ++ [last])).errors =
      [⟨.arrowAfterSource, some ⟨.name "B", "B", 2⟩⟩, ⟨.expression, some last⟩,
        ⟨.closingBrace, some last⟩] := by
    cbv
  have hfirst : (passage false (ts ++ [last])).errors.head? =
      some ⟨.arrowAfterSource, some ⟨.name "B", "B", 2⟩⟩ := by
    rw [herrors]
    rfl
  obtain ⟨p, l, rest, hsplit, hfound, -, hbefore, hwith, -⟩ :=
    first_error_earliest ts last hts rfl _ hfirst
  refine ⟨p, l, rest, hsplit, (Option.some.inj hfound).symm, hbefore, ?_⟩
  intro us hus
  exact (hwith us hus).2

end Watershed.Grammar
