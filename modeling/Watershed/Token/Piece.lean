import Watershed.Decimal.Reading
import Watershed.Token

/-!
# Pieces of a program text

A text is cut from the front into pieces: tokens, runs of blanks, comments, and the stretches no
token can be made of. A piece holds its characters, so the pieces of a text put together give it
back.
-/

set_option autoImplicit false

namespace Watershed

/-- What a stretch of program text is. -/
inductive Piece.Kind where
  | token (token : Token)
  /-- A run of blanks. -/
  | blank
  /-- A comment up to the end of its line. -/
  | lineComment
  /-- A comment closed by its own mark. -/
  | blockComment
  /-- A character that starts no token. -/
  | stray (character : Char)
  /-- A text literal that is never closed; it takes up all that follows. -/
  | openText
  /-- A block comment that is never closed; it takes up all that follows. -/
  | openComment
deriving DecidableEq

/-- A stretch of program text. -/
structure Piece where
  kind : Piece.Kind
  chars : List Char
deriving DecidableEq

namespace Piece

/-- Blanks separate tokens and mean nothing else. -/
def isBlank (c : Char) : Bool :=
  c = ' ' || c = '\t' || c = '\r' || c = '\x0c'

/-- A name or reserved word starts with an ASCII letter or an underscore. -/
def startsWord (c : Char) : Bool :=
  c.isAlpha || c = '_'

/-- After its first character a word may also hold digits. -/
def continuesWord (c : Char) : Bool :=
  c.isAlphanum || c = '_'

/-- Splits a text after its first `mark`, if it holds one. -/
def splitAfter? (mark : Char) : List Char → Option (List Char × List Char)
  | [] => none
  | c :: cs =>
    if c = mark then some ([c], cs)
    else (splitAfter? mark cs).map fun (front, rest) => (c :: front, rest)

/-- Splits a text after the first `*/` in it, if it holds one. -/
def splitAfterClose? : List Char → Option (List Char × List Char)
  | [] => none
  | '*' :: '/' :: cs => some (['*', '/'], cs)
  | c :: cs => (splitAfterClose? cs).map fun (front, rest) => (c :: front, rest)

/-- The sign spelled by two characters. -/
def doubleSign? : Char → Char → Option Sign
  | '-', '>' => some .arrow
  | '=', '=' => some .equalEqual
  | '!', '=' => some .bangEqual
  | '<', '=' => some .lessEqual
  | '>', '=' => some .greaterEqual
  | _, _ => none

/-- The sign spelled by one character. -/
def singleSign? : Char → Option Sign
  | '+' => some .plus
  | '-' => some .minus
  | '*' => some .star
  | '/' => some .slash
  | '(' => some .leftParen
  | ')' => some .rightParen
  | '\x7b' => some .leftBrace
  | '\x7d' => some .rightBrace
  | ',' => some .comma
  | ';' => some .semicolon
  | '=' => some .equals
  | '<' => some .less
  | '>' => some .greater
  | '!' => some .bang
  | _ => none

/-- A number: digits, and a fraction if a point with a digit after it follows. -/
def cutNumber (cs : List Char) : Piece × List Char :=
  let (whole, rest) := Decimal.spanDigits cs
  match rest with
  | '.' :: c :: more =>
    if c.isDigit then
      let (fraction, after) := Decimal.spanDigits (c :: more)
      let value := Decimal.toFloat ⟨Decimal.ofDigits (whole ++ fraction), -fraction.length⟩
      (⟨.token (.number value), whole ++ '.' :: fraction⟩, after)
    else
      (⟨.token (.number (Decimal.toFloat ⟨Decimal.ofDigits whole, 0⟩)), whole⟩, rest)
  | _ => (⟨.token (.number (Decimal.toFloat ⟨Decimal.ofDigits whole, 0⟩)), whole⟩, rest)

/-- A word: as many characters as can continue one. -/
def cutWord (cs : List Char) : Piece × List Char :=
  let word := cs.takeWhile continuesWord
  (⟨.token (.ofWord (String.ofList word)), word⟩, cs.dropWhile continuesWord)

/-- A run of blanks, as long as it gets. -/
def cutBlank (cs : List Char) : Piece × List Char :=
  (⟨.blank, cs.takeWhile isBlank⟩, cs.dropWhile isBlank)

/-- A text literal, given what follows its opening quote. It may go on over several lines. -/
def cutText (cs : List Char) : Piece × List Char :=
  match splitAfter? '"' cs with
  | some (front, rest) => (⟨.token (.text (String.ofList front.dropLast)), '"' :: front⟩, rest)
  | none => (⟨.openText, '"' :: cs⟩, [])

/-- A line comment, given what follows its opening mark. The line break is not part of it. -/
def cutLineComment (cs : List Char) : Piece × List Char :=
  (⟨.lineComment, '/' :: '/' :: cs.takeWhile (· ≠ '\n')⟩, cs.dropWhile (· ≠ '\n'))

/-- A block comment, given what follows its opening mark. -/
def cutBlockComment (cs : List Char) : Piece × List Char :=
  match splitAfterClose? cs with
  | some (front, rest) => (⟨.blockComment, '/' :: '*' :: front⟩, rest)
  | none => (⟨.openComment, '/' :: '*' :: cs⟩, [])

/-- A sign of one character, or a stray character. -/
def cutSingle (c : Char) (cs : List Char) : Piece × List Char :=
  match singleSign? c with
  | some s => (⟨.token (.sign s), [c]⟩, cs)
  | none => (⟨.stray c, [c]⟩, cs)

/-- A sign, of two characters if they spell one, or a stray character. -/
def cutSign (c : Char) (cs : List Char) : Piece × List Char :=
  match cs with
  | d :: rest =>
    match doubleSign? c d with
    | some s => (⟨.token (.sign s), [c, d]⟩, rest)
    | none => cutSingle c cs
  | [] => cutSingle c cs

/-- What opens at a character that starts neither a number, nor a word, nor a run of blanks. -/
def cutMark (c : Char) (cs : List Char) : Piece × List Char :=
  match c, cs with
  | '\n', rest => (⟨.token .lineBreak, ['\n']⟩, rest)
  | '"', rest => cutText rest
  | '/', '/' :: rest => cutLineComment rest
  | '/', '*' :: rest => cutBlockComment rest
  | c, cs => cutSign c cs

/-- Cuts the first piece off a text, given its first character and the others. -/
def cut (c : Char) (cs : List Char) : Piece × List Char :=
  if c.isDigit then cutNumber (c :: cs)
  else if startsWord c then cutWord (c :: cs)
  else if isBlank c then cutBlank (c :: cs)
  else cutMark c cs

/-! ## A cut loses nothing -/

/-- Splitting a text behind a mark loses nothing. -/
theorem splitAfter?_append {mark : Char} {cs front rest : List Char}
    (h : splitAfter? mark cs = some (front, rest)) : front ++ rest = cs := by
  induction cs generalizing front with
  | nil => simp [splitAfter?] at h
  | cons c cs ih =>
    rw [splitAfter?] at h
    split at h
    · obtain ⟨rfl, rfl⟩ := Prod.mk.inj (Option.some.inj h)
      rfl
    · obtain ⟨⟨front', rest'⟩, h', heq⟩ := Option.map_eq_some_iff.1 h
      obtain ⟨rfl, rfl⟩ := Prod.mk.inj heq
      simp [ih h']

/-- Splitting a text behind the closing mark of a comment loses nothing. -/
theorem splitAfterClose?_append {cs front rest : List Char}
    (h : splitAfterClose? cs = some (front, rest)) : front ++ rest = cs := by
  fun_induction splitAfterClose? cs generalizing front with
  | case1 => simp at h
  | case2 cs =>
    obtain ⟨rfl, rfl⟩ := Prod.mk.inj (Option.some.inj h)
    rfl
  | case3 c cs _ ih =>
    obtain ⟨⟨front', rest'⟩, h', heq⟩ := Option.map_eq_some_iff.1 h
    obtain ⟨rfl, rfl⟩ := Prod.mk.inj heq
    simp [ih h']

/-- A cut is faithful to a text if its piece is not empty and the piece and the rest make up the
text. -/
def Faithful (text : List Char) (r : Piece × List Char) : Prop :=
  r.1.chars ≠ [] ∧ r.1.chars ++ r.2 = text

/-- The cut of a number is faithful. -/
theorem faithful_cutNumber {c : Char} (cs : List Char) (hc : c.isDigit = true) :
    Faithful (c :: cs) (cutNumber (c :: cs)) := by
  have hwhole : (Decimal.spanDigits (c :: cs)).1 ≠ [] := by
    simp [Decimal.spanDigits, hc]
  have hsplit (ds : List Char) : (Decimal.spanDigits ds).1 ++ (Decimal.spanDigits ds).2 = ds := by
    simp [Decimal.spanDigits]
  simp only [cutNumber]
  split
  · rename_i d more hrest
    split
    · refine ⟨by simp, ?_⟩
      rw [List.append_assoc, List.cons_append, hsplit, ← hrest, hsplit]
    · exact ⟨hwhole, hsplit _⟩
  · exact ⟨hwhole, hsplit _⟩

/-- The cut of a word is faithful. -/
theorem faithful_cutWord {c : Char} (cs : List Char) (hc : startsWord c = true) :
    Faithful (c :: cs) (cutWord (c :: cs)) := by
  have hw : continuesWord c = true := by
    simp only [startsWord, continuesWord, Char.isAlphanum, Bool.or_eq_true] at hc ⊢
    exact hc.imp_left Or.inl
  exact ⟨by simp [cutWord, hw], by simp [cutWord]⟩

/-- The cut of a run of blanks is faithful. -/
theorem faithful_cutBlank {c : Char} (cs : List Char) (hc : isBlank c = true) :
    Faithful (c :: cs) (cutBlank (c :: cs)) :=
  ⟨by simp [cutBlank, hc], by simp [cutBlank]⟩

/-- The cut of a string is faithful, whether it is closed or not. -/
theorem faithful_cutText (cs : List Char) : Faithful ('"' :: cs) (cutText cs) := by
  rw [cutText]
  split
  · rename_i front rest h
    exact ⟨by simp, by simp [splitAfter?_append h]⟩
  · exact ⟨by simp, by simp⟩

/-- The cut of a line comment is faithful. -/
theorem faithful_cutLineComment (cs : List Char) :
    Faithful ('/' :: '/' :: cs) (cutLineComment cs) :=
  ⟨by simp [cutLineComment], by simp [cutLineComment]⟩

/-- The cut of a block comment is faithful, whether it is closed or not. -/
theorem faithful_cutBlockComment (cs : List Char) :
    Faithful ('/' :: '*' :: cs) (cutBlockComment cs) := by
  rw [cutBlockComment]
  split
  · rename_i front rest h
    exact ⟨by simp, by simp [splitAfterClose?_append h]⟩
  · exact ⟨by simp, by simp⟩

/-- The cut of a single character is faithful, be it a sign or stray. -/
theorem faithful_cutSingle (c : Char) (cs : List Char) : Faithful (c :: cs) (cutSingle c cs) := by
  rw [cutSingle]
  split <;> exact ⟨by simp, by simp⟩

/-- The cut of a sign is faithful, whether it has one character or two. -/
theorem faithful_cutSign (c : Char) (cs : List Char) : Faithful (c :: cs) (cutSign c cs) := by
  rw [cutSign.eq_def]
  split
  · split
    · exact ⟨by simp, by simp⟩
    · exact faithful_cutSingle c _
  · exact faithful_cutSingle c _

/-- The cut at a mark is faithful. -/
theorem faithful_cutMark (c : Char) (cs : List Char) : Faithful (c :: cs) (cutMark c cs) := by
  rw [cutMark.eq_def]
  split
  · exact ⟨by simp, by simp⟩
  · exact faithful_cutText _
  · exact faithful_cutLineComment _
  · exact faithful_cutBlockComment _
  · exact faithful_cutSign _ _

/-- The first piece is not empty, and the piece and the rest make up the text. -/
theorem faithful_cut (c : Char) (cs : List Char) : Faithful (c :: cs) (cut c cs) := by
  rw [cut]
  split
  · exact faithful_cutNumber cs ‹_›
  · split
    · exact faithful_cutWord cs ‹_›
    · split
      · exact faithful_cutBlank cs ‹_›
      · exact faithful_cutMark c cs

/-- The rest of a cut is shorter than the text. -/
theorem length_cut_lt (c : Char) (cs : List Char) : (cut c cs).2.length < (c :: cs).length := by
  obtain ⟨hne, happend⟩ := faithful_cut c cs
  have := List.length_pos_iff.2 hne
  rw [← happend, List.length_append]
  omega

end Piece

end Watershed
