import Mathlib.Data.List.Basic
import Watershed.Proofs.Grammar.Items

/-!
# Reading makes progress

Every reader leaves a suffix of the lexemes it is given, whether it succeeds or fails. A passage is
read by a loop: each turn skips terminators and then reads one item, and the loop is left where the
passage ends. A turn takes up at least one lexeme, also if the statement fails at its first lexeme
and recovery has to skip it, or if recovery comes to a halt before the brace that closes a block.
So the loop takes no more turns than there are lexemes, in blocks as well as outside of them, and a
program is read up to the end of the text (`reading_progresses`).
-/

set_option autoImplicit false

namespace Watershed.Grammar

/-! ## What readers leave -/

/-- The readers of the grammar, each with what it is told besides the lexemes. -/
inductive Reader where
  | name (wanted : Expectation)
  | sign (s : Sign) (wanted : Expectation)
  | expression (tier : Option Tier)
  | chain (tier : Tier) (left : Expr)
  | group (line : Nat)
  | initial
  | furtherSources
  | damMode
  | statementAfter {word : Keyword} {line : Nat} {p : Phrase Statement}
      (begins : statementAfter? word line = some p)
  | expressionStatement (line : Nat)
  | block (line : Nat)
  | statement
  | statementEnd
  | recovery (inBlock : Bool)
  | item (inBlock : Bool)
  | terminators
  | passage (inBlock : Bool)

/-- The lexemes that a reader leaves. -/
def Reader.rest (ts : List Lexeme) : Reader → List Lexeme
  | name wanted => (Phrase.name wanted ts).rest
  | sign s wanted => (Phrase.sign s wanted ts).rest
  | expression tier => (expressionOf tier ts).rest
  | chain tier left => (chainOf tier left ts).rest
  | group line => (closeGroup line (Grammar.expression ts)).rest
  | initial => (Grammar.initial ts).rest
  | furtherSources => (Grammar.furtherSources ts).rest
  | damMode => (Grammar.damMode ts).rest
  | @statementAfter _ _ p _ => (p ts).rest
  | expressionStatement line => (Grammar.expressionStatement line ts).rest
  | block line => (Grammar.block line ts).reading.rest
  | statement => (Grammar.statement ts).reading.rest
  | statementEnd => (Grammar.statementEnd ts).rest
  | recovery inBlock => recover inBlock ts
  | item inBlock => (Grammar.item inBlock ts).rest
  | terminators => skipTerminators ts
  | passage inBlock => (Grammar.passage inBlock ts).rest

/-- What follows an expression of a tier is read up to a suffix of the lexemes. -/
theorem chainOf_rest_suffix (t : Tier) (left : Expr) (ts : List Lexeme) :
    (chainOf t left ts).rest <:+ ts :=
  (readChain t left ts).property

/-- A block is read up to a suffix of the lexemes. -/
theorem block_rest_suffix (line : Nat) (ts : List Lexeme) :
    (block line ts).reading.rest <:+ ts :=
  (closeBlock_rest_suffix line (passage true ts)).trans (passage_rest_suffix true ts)

/-- A statement is read up to a suffix of the lexemes. -/
theorem statement_rest_suffix (ts : List Lexeme) : (statement ts).reading.rest <:+ ts := by
  cases ts with
  | nil => exact List.suffix_refl _
  | cons l ls => exact (readStatement l ls).property.1

/-- An item is read or skipped up to a suffix of the lexemes. -/
theorem item_rest_suffix (inBlock : Bool) (ts : List Lexeme) : (item inBlock ts).rest <:+ ts := by
  cases ts with
  | nil => exact List.suffix_refl _
  | cons l ls => exact conclude_rest_suffix inBlock (readStatement l ls).property

/-- Every reader leaves a suffix of its lexemes. -/
theorem Reader.rest_suffix (ts : List Lexeme) (reader : Reader) : reader.rest ts <:+ ts := by
  cases reader with
  | name wanted => exact Phrase.isFront_name wanted ts
  | sign s wanted => exact Phrase.isFront_sign s wanted ts
  | expression tier => exact (within_expressionOf tier ts).1
  | chain tier left => exact chainOf_rest_suffix tier left ts
  | group line => exact (closeGroup_rest_suffix line _).trans (isFront_expression ts)
  | initial => exact isFront_initial ts
  | furtherSources => exact isFront_furtherSources ts
  | damMode => exact isFront_damMode ts
  | statementAfter begins => exact isFront_statementAfter? begins ts
  | expressionStatement line => exact (within_expressionStatement line ts).1
  | block line => exact block_rest_suffix line ts
  | statement => exact statement_rest_suffix ts
  | statementEnd => exact isFront_statementEnd ts
  | recovery inBlock => exact recover_suffix inBlock ts
  | item inBlock => exact item_rest_suffix inBlock ts
  | terminators => exact (skipTerminators ts).property
  | passage inBlock => exact passage_rest_suffix inBlock ts

/-! ## The turns of a loop -/

/-- The turns of the loop that reads a passage, each given by the lexemes that its item is read
from, and what the loop leaves. -/
inductive Turns (inBlock : Bool) : List Lexeme → List (List Lexeme) → List Lexeme → Prop
  | done {ts rest : List Lexeme} (next : ts.dropWhile (·.token.isTerminator) = rest)
      (ends : ∀ l ∈ rest.head?, endsPassage inBlock l.token = true) : Turns inBlock ts [] rest
  | turn {ts ls rest : List Lexeme} {l : Lexeme} {turns : List (List Lexeme)}
      (next : ts.dropWhile (·.token.isTerminator) = l :: ls)
      (goesOn : endsPassage inBlock l.token = false)
      (more : Turns inBlock (item inBlock (l :: ls)).rest turns rest) :
      Turns inBlock ts ((l :: ls) :: turns) rest

namespace Turns

variable {inBlock : Bool} {ts rest : List Lexeme} {turns : List (List Lexeme)}

/-- The loop skips a terminator without taking a turn. -/
theorem terminator {l : Lexeme} (hterm : l.token.isTerminator = true)
    (h : Turns inBlock ts turns rest) : Turns inBlock (l :: ts) turns rest := by
  have hskip : (l :: ts).dropWhile (·.token.isTerminator) = ts.dropWhile (·.token.isTerminator) :=
    List.dropWhile_cons_of_pos hterm
  cases h with
  | done next ends => exact .done (hskip.trans next) ends
  | turn next goesOn more => exact .turn (hskip.trans next) goesOn more

/-- The loop comes to an end, and leaves what the passage leaves. -/
theorem exists_turns (inBlock : Bool) (ts : List Lexeme) :
    ∃ turns, Turns inBlock ts turns (passage inBlock ts).rest := by
  have hstays {l : Lexeme} {ls : List Lexeme} (hterm : l.token.isTerminator = false) :
      (l :: ls).dropWhile (·.token.isTerminator) = l :: ls :=
    List.dropWhile_cons_of_neg (Bool.not_eq_true _ ▸ hterm)
  induction inBlock, ts using passage_induction with
  | finished inBlock ts hend =>
    rw [passage_end hend]
    cases ts with
    | nil => exact ⟨[], .done rfl hend⟩
    | cons l ls => exact ⟨[], .done (hstays (endsPassage_facts (hend l rfl)).1) hend⟩
  | terminator inBlock l ls hterm ih =>
    obtain ⟨turns, hturns⟩ := ih
    rw [passage_terminator inBlock ls hterm]
    exact ⟨turns, hturns.terminator hterm⟩
  | begun inBlock l ls hterm hend _ hafter =>
    obtain ⟨turns, hturns⟩ := hafter
    rw [passage_item ls hterm hend]
    exact ⟨(l :: ls) :: turns, .turn (hstays hterm) hend hturns⟩

/-- A passage is made up of what its turns read. -/
theorem passage_eq (h : Turns inBlock ts turns rest) :
    passage inBlock ts =
      ⟨turns.flatMap fun us => (item inBlock us).statements,
        turns.flatMap fun us => (item inBlock us).errors, rest⟩ := by
  induction h with
  | @done ts rest next ends =>
    rw [Grammar.passage_eq, next]
    cases rest with
    | nil => rfl
    | cons l ls => exact if_pos (ends l rfl)
  | @turn ts ls rest l turns next goesOn more ih =>
    rw [Grammar.passage_eq, next]
    simp only [goesOn, Bool.false_eq_true, if_false, ih, List.flatMap_cons]
    rfl

/-- The loop stops where no lexeme is left or the passage ends. -/
theorem rest_ends (h : Turns inBlock ts turns rest) :
    ∀ l ∈ rest.head?, endsPassage inBlock l.token = true := by
  induction h with
  | done _ ends => exact ends
  | turn _ _ _ ih => exact ih

/-- Every turn is taken at lexemes that the turns before have left, and takes up at least one. -/
theorem progress (h : Turns inBlock ts turns rest) :
    ∀ us ∈ turns, us <:+ ts ∧ (item inBlock us).rest.length < us.length := by
  induction h with
  | done => simp
  | @turn ts ls rest l turns next goesOn more ih =>
    have hfirst : l :: ls <:+ ts := next ▸ List.dropWhile_suffix _
    rw [List.forall_mem_cons]
    refine ⟨⟨hfirst, length_item_lt ls goesOn⟩, fun us hus => ?_⟩
    obtain ⟨hsuffix, hshorter⟩ := ih us hus
    exact ⟨(hsuffix.trans (item_rest_suffix inBlock (l :: ls))).trans hfirst, hshorter⟩

/-- There are no more turns than lexemes. -/
theorem length_le (h : Turns inBlock ts turns rest) : turns.length + rest.length ≤ ts.length := by
  induction h with
  | @done ts rest next =>
    have hrest : rest <:+ ts := next ▸ List.dropWhile_suffix _
    simpa using hrest.length_le
  | @turn ts ls rest l turns next goesOn more ih =>
    have hfirst : l :: ls <:+ ts := next ▸ List.dropWhile_suffix _
    have hlength := hfirst.length_le
    have hshorter := length_item_lt ls goesOn
    rw [List.length_cons]
    omega

end Turns

/-- Reading a passage comes to read an item, inside a block or not, from some lexemes: in a turn of
its own loop, or in a turn of the loop of a block that it comes to. -/
inductive ComesTo : Bool → List Lexeme → Bool → List Lexeme → Prop
  | turn {inBlock : Bool} {ts rest us : List Lexeme} {turns : List (List Lexeme)}
      (loop : Turns inBlock ts turns rest) (taken : us ∈ turns) : ComesTo inBlock ts inBlock us
  | inside {inBlock inBlock' inner : Bool} {ts ls us : List Lexeme} {l : Lexeme}
      (outer : ComesTo inBlock ts inBlock' (l :: ls)) (opened : l.token = .sign .leftBrace)
      (body : ComesTo true ls inner us) : ComesTo inBlock ts inner us

/-- Every item that reading comes to is read from a suffix of the lexemes, and takes up at least one
of them. -/
theorem ComesTo.progress {inBlock inner : Bool} {ts us : List Lexeme}
    (h : ComesTo inBlock ts inner us) : us <:+ ts ∧ (item inner us).rest.length < us.length := by
  induction h with
  | turn loop taken => exact loop.progress _ taken
  | @inside inBlock inBlock' inner ts ls us l _ _ _ ihouter ihbody =>
    exact ⟨(ihbody.1.trans (List.suffix_cons l ls)).trans ihouter.1, ihbody.2⟩

/-- Reading always makes progress. Every reader leaves a suffix of its lexemes. Every item that the
loop of a program or of a block comes to, in whatever blocks, is read from a suffix of the lexemes,
and what it leaves is a shorter suffix. Every loop ends after no more turns than there are lexemes,
and what it has read is what its turns have read. A program is left only where no lexeme is left or
the end of the text comes next. -/
theorem reading_progresses (ts : List Lexeme) :
    (∀ reader : Reader, reader.rest ts <:+ ts) ∧
    (∀ inBlock inner us, ComesTo inBlock ts inner us →
      us <:+ ts ∧ (item inner us).rest <:+ us ∧ (item inner us).rest.length < us.length) ∧
    (∀ inBlock, ∃ turns rest, Turns inBlock ts turns rest ∧
      turns.length + rest.length ≤ ts.length ∧
      passage inBlock ts =
        ⟨turns.flatMap fun us => (item inBlock us).statements,
          turns.flatMap fun us => (item inBlock us).errors, rest⟩) ∧
    ((passage false ts).rest = [] ∨
      ∃ l ls, (passage false ts).rest = l :: ls ∧ l.token = .endOfText) := by
  refine ⟨Reader.rest_suffix ts, fun inBlock inner us h => ?_, fun inBlock => ?_, ?_⟩
  · obtain ⟨hsuffix, hshorter⟩ := h.progress
    exact ⟨hsuffix, item_rest_suffix inner us, hshorter⟩
  · obtain ⟨turns, hturns⟩ := Turns.exists_turns inBlock ts
    exact ⟨turns, _, hturns, hturns.length_le, hturns.passage_eq⟩
  · obtain ⟨turns, hturns⟩ := Turns.exists_turns false ts
    have hends := hturns.rest_ends
    cases hrest : (passage false ts).rest with
    | nil => exact .inl rfl
    | cons l ls =>
      rw [hrest] at hends
      exact .inr ⟨l, ls, rfl, endsPassage_false_iff.1 (hends l rfl)⟩

/-- In a block, a statement fails at its first lexeme, which recovery skips, and the next one fails
at the closing brace, where recovery skips nothing. -/
theorem reading_progresses_recovering :
    let close : Lexeme := ⟨.sign .rightBrace, "\x7d", 1⟩
    let broken : List Lexeme := [⟨.keyword .flow, "flow", 1⟩, ⟨.name "A", "A", 1⟩, close]
    let inside : List Lexeme :=
      ⟨.sign .rightParen, ")", 1⟩ :: ⟨.sign .semicolon, ";", 1⟩ :: broken
    let ts : List Lexeme := ⟨.sign .leftBrace, "\x7b", 1⟩ :: inside
    ComesTo false ts true inside ∧ (item true inside).rest.length < inside.length ∧
      ComesTo false ts true broken ∧ (item true broken).rest.length < broken.length := by
  intro close broken inside ts
  have hends : ∀ l ∈ [close].head?, endsPassage true l.token = true := by simp [close, endsPassage]
  have hblock : Turns true inside [inside, broken] [close] :=
    .turn rfl rfl (.turn (by cbv) rfl (.done (by cbv) hends))
  have hprogram : Turns false ts [ts] [] :=
    .turn rfl rfl (.done (by cbv) (by simp))
  have hcomes : ∀ us ∈ [inside, broken], ComesTo false ts true us :=
    fun us hus => .inside (.turn hprogram (List.mem_singleton.2 rfl)) rfl (.turn hblock hus)
  have hinside := hcomes inside (by simp)
  have hbroken := hcomes broken (by simp)
  obtain ⟨-, hprogress, -⟩ := reading_progresses ts
  exact ⟨hinside, (hprogress _ _ _ hinside).2.2, hbroken, (hprogress _ _ _ hbroken).2.2⟩

end Watershed.Grammar
