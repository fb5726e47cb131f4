import Watershed.Token.Scan

/-!
# What a text begins with

The first piece of a text is settled by its own characters and by what stands behind them. A token
is cut off where its spelling stands and does not go on, so it is the longest one there.
`Token.StopsBefore` says what would make a token go on, `Piece.Begins` says of every kind of piece
what it is made of and what may follow it, in terms of the characters alone. The pieces that are cut
off are exactly those that begin the text (`begins_cut`, `cut_of_begins`), so whatever is proved of
the pieces of a text is proved by taking off one such piece after the other.
-/

set_option autoImplicit false

namespace Watershed

/-! ## Spellings -/

/-- The spelling of a sign. -/
def Sign.spelling : Sign → List Char
  | arrow => ['-', '>']
  | plus => ['+']
  | minus => ['-']
  | star => ['*']
  | slash => ['/']
  | leftParen => ['(']
  | rightParen => [')']
  | leftBrace => ['\x7b']
  | rightBrace => ['\x7d']
  | comma => [',']
  | semicolon => [';']
  | equals => ['=']
  | equalEqual => ['=', '=']
  | bangEqual => ['!', '=']
  | lessEqual => ['<', '=']
  | greaterEqual => ['>', '=']
  | less => ['<']
  | greater => ['>']
  | bang => ['!']

/-- The characters that spell a token. A word that is reserved is no name, and the end of the text
has no spelling. -/
inductive Spells : Token → List Char → Prop
  | whole {ds : List Char} (nonempty : ds ≠ []) (digits : ∀ d ∈ ds, d.isDigit = true) :
      Spells (.number (Decimal.toFloat ⟨Decimal.ofDigits ds, 0⟩)) ds
  | fraction {ds fs : List Char} (nonempty : ds ≠ [] ∧ fs ≠ [])
      (digits : ∀ d ∈ ds ++ fs, d.isDigit = true) :
      Spells (.number (Decimal.toFloat ⟨Decimal.ofDigits (ds ++ fs), -fs.length⟩))
        (ds ++ '.' :: fs)
  | text {cs : List Char} (unquoted : '"' ∉ cs) :
      Spells (.text (String.ofList cs)) ('"' :: cs ++ ['"'])
  | truth : Spells (.bool true) ['t', 'r', 'u', 'e']
  | falsity : Spells (.bool false) ['f', 'a', 'l', 's', 'e']
  | keyword (word : Keyword) : Spells (.keyword word) word.spelling.toList
  | name {c : Char} {cs : List Char} (starts : Piece.startsWord c = true)
      (continues : ∀ d ∈ cs, Piece.continuesWord d = true)
      (free : ∀ word : Keyword, word.spelling ≠ String.ofList (c :: cs))
      (untrue : String.ofList (c :: cs) ≠ "true" ∧ String.ofList (c :: cs) ≠ "false") :
      Spells (.name (String.ofList (c :: cs))) (c :: cs)
  | sign (s : Sign) : Spells (.sign s) s.spelling
  | lineBreak : Spells .lineBreak ['\n']

/-- No token is spelled with no characters. -/
theorem Spells.ne_nil {t : Token} {chars : List Char} (h : Spells t chars) : chars ≠ [] := by
  cases h with
  | whole nonempty digits => exact nonempty
  | keyword word => cases word <;> decide
  | sign s => cases s <;> decide
  | _ => simp

/-! ## Where a token stops -/

/-- The characters that make something else of a sign if they stand right behind it: another sign
or the opening of a comment. -/
def Sign.extensions : Sign → List Char
  | equals | bang | less | greater => ['=']
  | minus => ['>']
  | slash => ['/', '*']
  | _ => []

/-- Whether a token that is spelled by `chars` stops where `rest` begins. A word goes on with every
letter, digit and underscore, a number with every digit and, unless it has a fraction already, with
a point that a digit follows. -/
def Token.StopsBefore (t : Token) (chars rest : List Char) : Prop :=
  match t with
  | .number _ => (∀ c ∈ rest.head?, c.isDigit = false) ∧
      ('.' ∉ chars → ∀ d more, rest = '.' :: d :: more → d.isDigit = false)
  | .bool _ | .name _ | .keyword _ => ∀ c ∈ rest.head?, Piece.continuesWord c = false
  | .sign s => ∀ c ∈ rest.head?, c ∉ s.extensions
  | .text _ | .lineBreak | .endOfText => True

namespace Piece

/-- The characters that start a token. -/
def StartsToken (c : Char) : Prop :=
  c.isDigit = true ∨ startsWord c = true ∨ c = '\n' ∨ c = '"' ∨ singleSign? c ≠ none

/-- Whether a text begins with a piece, if `rest` is the text behind the piece. -/
inductive Begins : Piece → List Char → Prop
  | token {t : Token} {chars rest : List Char} (spelled : Spells t chars)
      (stops : t.StopsBefore chars rest) : Begins ⟨.token t, chars⟩ rest
  | blanks {chars rest : List Char} (nonempty : chars ≠ []) (blank : ∀ c ∈ chars, isBlank c = true)
      (stops : ∀ c ∈ rest.head?, isBlank c = false) : Begins ⟨.blank, chars⟩ rest
  | lineComment {body rest : List Char} (unbroken : '\n' ∉ body)
      (stops : ∀ c ∈ rest.head?, c = '\n') : Begins ⟨.lineComment, '/' :: '/' :: body⟩ rest
  | blockComment {body rest : List Char} (unclosed : ¬['*', '/'] <:+: body) :
      Begins ⟨.blockComment, '/' :: '*' :: body ++ ['*', '/']⟩ rest
  | stray {c : Char} {rest : List Char} (unspelled : ¬StartsToken c) (unblank : isBlank c = false) :
      Begins ⟨.stray c, [c]⟩ rest
  | openText {body : List Char} (unquoted : '"' ∉ body) : Begins ⟨.openText, '"' :: body⟩ []
  | openComment {body : List Char} (unclosed : ¬['*', '/'] <:+: body) :
      Begins ⟨.openComment, '/' :: '*' :: body⟩ []

/-! ## Runs of characters -/

/-- The longest run at the front of a text is made of characters of its kind. -/
theorem forall_mem_takeWhile (p : Char → Bool) (cs : List Char) :
    ∀ c ∈ cs.takeWhile p, p c = true :=
  List.all_eq_true.1 List.all_takeWhile

/-- Behind the longest run of a kind stands no character of this kind. -/
theorem head?_dropWhile_eq_false (p : Char → Bool) (cs : List Char) :
    ∀ c ∈ (cs.dropWhile p).head?, p c = false := by
  intro c hc
  have hhead := List.head?_dropWhile_not p cs
  rw [Option.mem_def.1 hc] at hhead
  simpa using hhead

section Runs

variable {p : Char → Bool} {run rest : List Char} (hrun : ∀ c ∈ run, p c = true)
  (hrest : ∀ c ∈ rest.head?, p c = false)

include hrun hrest

/-- The longest run at the front of a text ends where another character follows. -/
theorem takeWhile_append_of_stop : (run ++ rest).takeWhile p = run := by
  rw [List.takeWhile_append_of_pos hrun]
  cases rest with
  | nil => simp
  | cons c cs => simp [hrest c rfl]

/-- The longest run at the front of a text leaves what follows it. -/
theorem dropWhile_append_of_stop : (run ++ rest).dropWhile p = rest := by
  rw [List.dropWhile_append_of_pos hrun]
  cases rest with
  | nil => rfl
  | cons c cs => simp [hrest c rfl]

end Runs

/-! ## Numbers -/

/-- The leading digits of a text are digits. -/
theorem forall_mem_spanDigits (cs : List Char) :
    ∀ d ∈ (Decimal.spanDigits cs).1, d.isDigit = true :=
  forall_mem_takeWhile Char.isDigit cs

/-- The cut of a number is a piece that the text begins with. -/
theorem begins_cutNumber {c : Char} (cs : List Char) (hc : c.isDigit = true) :
    Begins (cutNumber (c :: cs)).1 (cutNumber (c :: cs)).2 := by
  have hwhole : (Decimal.spanDigits (c :: cs)).1 ≠ [] := by
    simp [Decimal.spanDigits, hc]
  have hdigits := forall_mem_spanDigits (c :: cs)
  have hstops : ∀ d ∈ (Decimal.spanDigits (c :: cs)).2.head?, d.isDigit = false :=
    head?_dropWhile_eq_false Char.isDigit (c :: cs)
  unfold cutNumber
  simp only
  split
  · rename_i d more hrest
    split
    · rename_i hd
      have hfraction : (Decimal.spanDigits (d :: more)).1 ≠ [] := by
        simp [Decimal.spanDigits, hd]
      have hboth := List.forall_mem_append.2 ⟨hdigits, forall_mem_spanDigits (d :: more)⟩
      refine .token (.fraction ⟨hwhole, hfraction⟩ hboth) ⟨?_, ?_⟩
      · exact head?_dropWhile_eq_false Char.isDigit (d :: more)
      · intro hpoint
        simp at hpoint
    · rename_i hd
      refine .token (.whole hwhole hdigits) ⟨hstops, ?_⟩
      intro _ e rest heq
      rw [hrest] at heq
      obtain ⟨rfl, rfl⟩ : d = e ∧ more = rest := by simpa using heq
      simpa using hd
  · rename_i hpoint
    refine .token (.whole hwhole hdigits) ⟨hstops, ?_⟩
    intro _ d more heq
    exact absurd heq (hpoint d more)

/-- No point stands among digits. -/
theorem ne_point_of_isDigit {ds : List Char} (hdigits : ∀ d ∈ ds, d.isDigit = true) : '.' ∉ ds := by
  intro hpoint
  exact absurd (hdigits '.' hpoint) (by decide)

/-- Digits are cut as a whole number, if neither a digit nor a fraction follows. -/
theorem cutNumber_whole {ds rest : List Char} (hdigits : ∀ d ∈ ds, d.isDigit = true)
    (hstops : ∀ c ∈ rest.head?, c.isDigit = false)
    (hpoint : ∀ d more, rest = '.' :: d :: more → d.isDigit = false) :
    cutNumber (ds ++ rest) =
      (⟨.token (.number (Decimal.toFloat ⟨Decimal.ofDigits ds, 0⟩)), ds⟩, rest) := by
  unfold cutNumber
  simp only [Decimal.spanDigits_append hdigits hstops]
  split
  · rename_i d more
    simp [hpoint d more rfl]
  · rfl

/-- Digits on both sides of a point are cut as a number with a fraction, if no digit follows. -/
theorem cutNumber_fraction {ds fs rest : List Char} (hfs : fs ≠ [])
    (hdigits : ∀ d ∈ ds ++ fs, d.isDigit = true) (hstops : ∀ c ∈ rest.head?, c.isDigit = false) :
    cutNumber (ds ++ '.' :: fs ++ rest) =
      (⟨.token (.number (Decimal.toFloat ⟨Decimal.ofDigits (ds ++ fs), -fs.length⟩)),
        ds ++ '.' :: fs⟩, rest) := by
  obtain ⟨hwhole, hfraction⟩ := List.forall_mem_append.1 hdigits
  obtain ⟨f, gs, rfl⟩ := List.exists_cons_of_ne_nil hfs
  have hpoint : Decimal.spanDigits (ds ++ '.' :: (f :: gs ++ rest)) =
      (ds, '.' :: (f :: gs ++ rest)) := by
    refine Decimal.spanDigits_append hwhole ?_
    intro c hc
    cases hc
    rfl
  unfold cutNumber
  rw [List.append_assoc, List.cons_append, hpoint]
  simp only [List.cons_append, hfraction f (List.mem_cons_self ..), if_true]
  rw [← List.cons_append, Decimal.spanDigits_append hfraction hstops]

/-! ## Words and blanks -/

/-- Every keyword is listed among all of them. -/
theorem mem_all (word : Keyword) : word ∈ Keyword.all := by
  cases word <;> decide

/-- Every word spells the token made of it. -/
theorem spells_ofWord {c : Char} {cs : List Char} (starts : startsWord c = true)
    (continues : ∀ d ∈ cs, continuesWord d = true) :
    Spells (Token.ofWord (String.ofList (c :: cs))) (c :: cs) := by
  have hchars : (String.ofList (c :: cs)).toList = c :: cs := String.toList_ofList
  unfold Token.ofWord
  split
  · rename_i htrue
    rw [htrue] at hchars
    rw [← hchars]
    exact .truth
  · rename_i htrue
    split
    · rename_i hfalse
      rw [hfalse] at hchars
      rw [← hchars]
      exact .falsity
    · rename_i hfalse
      split
      · rename_i word hfind
        have hword : word.spelling = String.ofList (c :: cs) := by
          simpa using List.find?_some hfind
        rw [← hchars, ← hword]
        exact .keyword word
      · rename_i hfind
        refine .name starts continues ?_ ⟨htrue, hfalse⟩
        intro word
        simpa using List.find?_eq_none.1 hfind word (mem_all word)

/-- A word is a token that stops before everything a word cannot hold. -/
theorem stopsBefore_ofWord (word : String) {chars rest : List Char}
    (h : ∀ c ∈ rest.head?, continuesWord c = false) :
    (Token.ofWord word).StopsBefore chars rest := by
  unfold Token.ofWord
  split
  · exact h
  · split
    · exact h
    · split <;> exact h

/-- What starts a word also continues one. -/
theorem continuesWord_of_startsWord {c : Char} (h : startsWord c = true) :
    continuesWord c = true := by
  simp only [startsWord, continuesWord, Char.isAlphanum, Bool.or_eq_true] at h ⊢
  exact h.imp_left Or.inl

/-- The cut of a word is a piece that the text begins with. -/
theorem begins_cutWord {c : Char} (cs : List Char) (hc : startsWord c = true) :
    Begins (cutWord (c :: cs)).1 (cutWord (c :: cs)).2 := by
  have hword : (c :: cs).takeWhile continuesWord = c :: cs.takeWhile continuesWord :=
    List.takeWhile_cons_of_pos (continuesWord_of_startsWord hc)
  have hstops := head?_dropWhile_eq_false continuesWord (c :: cs)
  simp only [cutWord, hword]
  exact .token (spells_ofWord hc (forall_mem_takeWhile continuesWord cs))
    (stopsBefore_ofWord _ hstops)

/-- What starts a word is no digit. -/
theorem isDigit_of_startsWord {c : Char} (h : startsWord c = true) : c.isDigit = false := by
  have hranges : (decide (65 ≤ c.val ∧ c.val ≤ 90) ||
      decide (97 ≤ c.val) && decide (c.val ≤ 122) || decide (c = '_')) = true := h
  simp only [Bool.or_eq_true, Bool.and_eq_true, decide_eq_true_eq, UInt32.le_iff_toNat_le,
    UInt32.reduceToNat] at hranges
  simp only [Char.isDigit, Bool.and_eq_false_iff, decide_eq_false_iff_not, ge_iff_le,
    UInt32.le_iff_toNat_le, UInt32.reduceToNat, Char.reduceVal]
  rcases hranges with hletter | rfl
  · omega
  · decide

/-- A word is cut as a whole if no character follows that continues it. -/
theorem cut_word {c : Char} {cs rest : List Char} (starts : startsWord c = true)
    (continues : ∀ d ∈ cs, continuesWord d = true)
    (hrest : ∀ d ∈ rest.head?, continuesWord d = false) :
    cut c (cs ++ rest) = (⟨.token (.ofWord (String.ofList (c :: cs))), c :: cs⟩, rest) := by
  have hall : ∀ d ∈ c :: cs, continuesWord d = true :=
    List.forall_mem_cons.2 ⟨continuesWord_of_startsWord starts, continues⟩
  rw [cut, isDigit_of_startsWord starts, if_neg Bool.false_ne_true, if_pos starts, cutWord,
    ← List.cons_append, takeWhile_append_of_stop hall hrest, dropWhile_append_of_stop hall hrest]

/-- The spelling of a keyword is read as this keyword. -/
theorem ofWord_spelling (word : Keyword) : Token.ofWord word.spelling = .keyword word := by
  cases word <;> decide

/-- The spelling of a keyword is a word. -/
theorem spelling_is_word (word : Keyword) : ∃ c cs, word.spelling.toList = c :: cs ∧
    startsWord c = true ∧ cs.all continuesWord = true := by
  cases word <;> exact ⟨_, _, rfl, rfl, rfl⟩

/-- A word that is not reserved is a name. -/
theorem ofWord_of_free {n : String} (free : ∀ word : Keyword, word.spelling ≠ n)
    (untrue : n ≠ "true" ∧ n ≠ "false") : Token.ofWord n = .name n := by
  have hnone : Keyword.all.find? (·.spelling = n) = none := by
    rw [List.find?_eq_none]
    intro word _
    simp [free word]
  rw [Token.ofWord, if_neg untrue.1, if_neg untrue.2, hnone]

/-- The blanks are the space, the tab, the carriage return and the form feed. -/
theorem isBlank_iff {c : Char} :
    isBlank c = true ↔ c = ' ' ∨ c = '\t' ∨ c = '\r' ∨ c = '\x0c' := by
  simp [isBlank, or_assoc]

/-- The cut of a run of blanks is a piece that the text begins with. -/
theorem begins_cutBlank {c : Char} (cs : List Char) (hc : isBlank c = true) :
    Begins (cutBlank (c :: cs)).1 (cutBlank (c :: cs)).2 := by
  refine .blanks ?_ ?_ ?_
  · simp [hc]
  · exact forall_mem_takeWhile isBlank (c :: cs)
  · exact head?_dropWhile_eq_false isBlank (c :: cs)

/-- A run of blanks is cut as a whole if no blank follows. -/
theorem cut_blanks {c : Char} {cs rest : List Char} (hblank : ∀ d ∈ c :: cs, isBlank d = true)
    (hstops : ∀ d ∈ rest.head?, isBlank d = false) :
    cut c (cs ++ rest) = (⟨.blank, c :: cs⟩, rest) := by
  have hc := hblank c (List.mem_cons_self ..)
  have hdigit : ¬c.isDigit = true ∧ ¬startsWord c = true := by
    rcases isBlank_iff.1 hc with rfl | rfl | rfl | rfl <;> decide
  rw [cut, if_neg hdigit.1, if_neg hdigit.2, if_pos hc, cutBlank, ← List.cons_append,
    takeWhile_append_of_stop hblank hstops, dropWhile_append_of_stop hblank hstops]

/-! ## Texts and comments -/

/-- A text is split behind the first of its marks. -/
theorem splitAfter?_eq_some {mark : Char} {cs front rest : List Char}
    (h : splitAfter? mark cs = some (front, rest)) :
    ∃ body, front = body ++ [mark] ∧ mark ∉ body := by
  induction cs generalizing front with
  | nil => cases h
  | cons c cs ih =>
    rw [splitAfter?] at h
    split at h
    · rename_i hc
      cases h
      exact ⟨[], by rw [hc]; rfl, by simp⟩
    · rename_i hc
      obtain ⟨⟨front', rest'⟩, h', heq⟩ := Option.map_eq_some_iff.1 h
      cases heq
      obtain ⟨body, rfl, hbody⟩ := ih h'
      exact ⟨c :: body, rfl, by simp [Ne.symm hc, hbody]⟩

/-- A mark behind characters without the mark is where the text is split. -/
theorem splitAfter?_append_mark {mark : Char} {body : List Char} (hbody : mark ∉ body)
    (rest : List Char) :
    splitAfter? mark (body ++ mark :: rest) = some (body ++ [mark], rest) := by
  induction body with
  | nil => simp [splitAfter?]
  | cons c body ih =>
    obtain ⟨hc, hmore⟩ : mark ≠ c ∧ mark ∉ body := by simpa using hbody
    rw [List.cons_append, splitAfter?, if_neg (Ne.symm hc), ih hmore]
    rfl

/-- A text cannot be split if the mark does not stand in it. -/
theorem splitAfter?_eq_none_iff {mark : Char} {cs : List Char} :
    splitAfter? mark cs = none ↔ mark ∉ cs := by
  induction cs with
  | nil => simp [splitAfter?]
  | cons c cs ih =>
    rw [splitAfter?]
    by_cases hc : c = mark
    · simp [hc]
    · rw [if_neg hc, Option.map_eq_none_iff, ih]
      simp [Ne.symm hc]

/-- The cut of a string, closed or not, is a piece that the text begins with. -/
theorem begins_cutText (cs : List Char) : Begins (cutText cs).1 (cutText cs).2 := by
  unfold cutText
  split
  · rename_i front rest h
    obtain ⟨body, rfl, hbody⟩ := splitAfter?_eq_some h
    rw [List.dropLast_concat]
    exact .token (.text hbody) trivial
  · rename_i h
    exact .openText (splitAfter?_eq_none_iff.1 h)

/-- The cut of a line comment is a piece that the text begins with. -/
theorem begins_cutLineComment (cs : List Char) :
    Begins (cutLineComment cs).1 (cutLineComment cs).2 := by
  refine .lineComment ?_ ?_
  · intro hmem
    have hne := forall_mem_takeWhile (· ≠ '\n') cs '\n' hmem
    simp at hne
  · intro c hc
    have hstops := head?_dropWhile_eq_false (· ≠ '\n') cs c hc
    simpa using hstops

/-- A line comment is cut up to the line break or to the end of the text. -/
theorem cutLineComment_append {body rest : List Char} (hbody : '\n' ∉ body)
    (hrest : ∀ c ∈ rest.head?, c = '\n') :
    cutLineComment (body ++ rest) = (⟨.lineComment, '/' :: '/' :: body⟩, rest) := by
  have hrun : ∀ c ∈ body, decide (c ≠ '\n') = true := by
    intro c hc
    rw [decide_eq_true_eq]
    rintro rfl
    exact hbody hc
  have hstops : ∀ c ∈ rest.head?, decide (c ≠ '\n') = false := by
    intro c hc
    rw [hrest c hc]
    rfl
  rw [cutLineComment, takeWhile_append_of_stop hrun hstops, dropWhile_append_of_stop hrun hstops]

/-- With no closing mark at the front, the first one of a text stands after its first character. -/
theorem not_close_infix_cons {c : Char} {body cs : List Char} (hbody : ¬['*', '/'] <:+: body)
    (hbegins : body <+: cs) (hfront : ∀ rest, c = '*' → cs = '/' :: rest → False) :
    ¬['*', '/'] <:+: c :: body := by
  intro hclose
  rcases List.infix_cons_iff.1 hclose with hstart | hlater
  · obtain ⟨hc, hslash⟩ := List.cons_prefix_cons.1 hstart
    obtain ⟨more, hmore⟩ := hslash.trans hbegins
    exact hfront more hc.symm hmore.symm
  · exact hbody hlater

/-- A comment is split behind the first of its closing marks. -/
theorem splitAfterClose?_eq_some {cs front rest : List Char}
    (h : splitAfterClose? cs = some (front, rest)) :
    ∃ body, front = body ++ ['*', '/'] ∧ ¬['*', '/'] <:+: body := by
  fun_induction splitAfterClose? cs generalizing front with
  | case1 => cases h
  | case2 cs =>
    cases h
    exact ⟨[], rfl, by simp⟩
  | case3 c cs hfront ih =>
    obtain ⟨⟨front', rest'⟩, h', heq⟩ := Option.map_eq_some_iff.1 h
    cases heq
    obtain ⟨body, rfl, hbody⟩ := ih h'
    have hbegins : body <+: cs := by
      rw [← splitAfterClose?_append h', List.append_assoc]
      exact List.prefix_append _ _
    exact ⟨c :: body, rfl, not_close_infix_cons hbody hbegins hfront⟩

/-- A closing mark behind characters without one is where the comment is split. -/
theorem splitAfterClose?_append_close {body : List Char} (hbody : ¬['*', '/'] <:+: body)
    (rest : List Char) :
    splitAfterClose? (body ++ '*' :: '/' :: rest) = some (body ++ ['*', '/'], rest) := by
  induction body with
  | nil => rfl
  | cons c body ih =>
    -- The mark cannot begin in the body: behind its last character stands no slash.
    have hfront : ∀ more, c = '*' → body ++ '*' :: '/' :: rest = '/' :: more → False := by
      intro more hc hslash
      cases body with
      | nil => cases hslash
      | cons d body =>
        cases hslash
        subst hc
        exact hbody ⟨[], body, rfl⟩
    have hmore : ¬['*', '/'] <:+: body := fun h => hbody (h.trans (List.suffix_cons c body).isInfix)
    rw [List.cons_append, splitAfterClose?.eq_3 _ _ hfront, ih hmore]
    rfl

/-- A comment that cannot be split holds no closing mark. -/
theorem splitAfterClose?_eq_none {cs : List Char} (h : splitAfterClose? cs = none) :
    ¬['*', '/'] <:+: cs := by
  fun_induction splitAfterClose? cs with
  | case1 => simp
  | case2 cs => cases h
  | case3 c cs hfront ih =>
    have hmore := ih (Option.map_eq_none_iff.1 h)
    exact not_close_infix_cons hmore (List.prefix_refl cs) hfront

/-- A comment without a closing mark cannot be split. -/
theorem splitAfterClose?_of_unclosed {cs : List Char} (h : ¬['*', '/'] <:+: cs) :
    splitAfterClose? cs = none := by
  rw [Option.eq_none_iff_forall_ne_some]
  rintro ⟨front, rest⟩ hsome
  obtain ⟨body, rfl, -⟩ := splitAfterClose?_eq_some hsome
  exact h ⟨body, rest, splitAfterClose?_append hsome⟩

/-- The cut of a block comment, closed or not, is a piece that the text begins with. -/
theorem begins_cutBlockComment (cs : List Char) :
    Begins (cutBlockComment cs).1 (cutBlockComment cs).2 := by
  unfold cutBlockComment
  split
  · rename_i front rest h
    obtain ⟨body, rfl, hbody⟩ := splitAfterClose?_eq_some h
    exact .blockComment hbody
  · rename_i h
    exact .openComment (splitAfterClose?_eq_none h)

/-! ## Signs and stray characters -/

/-- A character that is a sign spells this sign. -/
theorem spells_singleSign? {c : Char} {s : Sign} (h : singleSign? c = some s) :
    Spells (.sign s) [c] := by
  unfold singleSign? at h
  split at h <;> cases h <;> exact .sign _

/-- Two characters that are a sign together spell this sign. -/
theorem spells_doubleSign? {c d : Char} {s : Sign} (h : doubleSign? c d = some s) :
    Spells (.sign s) [c, d] := by
  unfold doubleSign? at h
  split at h <;> cases h <;> exact .sign _

/-- A sign of two characters never goes on. -/
theorem extensions_of_doubleSign? {c d : Char} {s : Sign} (h : doubleSign? c d = some s) :
    s.extensions = [] := by
  unfold doubleSign? at h
  split at h <;> cases h <;> rfl

/-- The first character of a sign of two is a sign, too. -/
theorem singleSign?_of_doubleSign? {c d : Char} {s : Sign} (h : doubleSign? c d = some s) :
    singleSign? c ≠ none := by
  unfold doubleSign? at h
  split at h <;> cases h <;> decide

/-- A character makes another sign of one that stands before it, or opens a comment with it, just
if it is one of the extensions. -/
theorem mem_extensions_iff {c d : Char} {s : Sign} (hs : singleSign? c = some s) :
    d ∈ s.extensions ↔ doubleSign? c d ≠ none ∨ c = '/' ∧ (d = '/' ∨ d = '*') := by
  unfold singleSign? at hs
  split at hs <;> cases hs <;> simp [Sign.extensions, doubleSign?] <;> split <;> simp_all

section Signs

variable {c : Char} (hsign : StartsToken c → singleSign? c ≠ none) (hblank : isBlank c = false)

include hsign hblank

/-- The cut of a single character is a piece that the text begins with, if no extension of it
follows. -/
theorem begins_cutSingle {cs : List Char}
    (hstops : ∀ s, singleSign? c = some s → ∀ d ∈ cs.head?, d ∉ s.extensions) :
    Begins (cutSingle c cs).1 (cutSingle c cs).2 := by
  unfold cutSingle
  split
  · rename_i s hs
    exact .token (spells_singleSign? hs) (hstops s hs)
  · rename_i hs
    exact .stray (fun hstarts => hsign hstarts hs) hblank

/-- The cut of a sign is a piece that the text begins with, if no comment begins there. -/
theorem begins_cutSign {cs : List Char}
    (hcomment : c = '/' → ∀ d ∈ cs.head?, d ≠ '/' ∧ d ≠ '*') :
    Begins (cutSign c cs).1 (cutSign c cs).2 := by
  rw [cutSign.eq_def]
  split
  · rename_i d rest
    split
    · rename_i s hs
      refine .token (spells_doubleSign? hs) ?_
      intro e _
      rw [extensions_of_doubleSign? hs]
      exact List.not_mem_nil
    · rename_i hnone
      refine begins_cutSingle hsign hblank ?_
      intro s hs e he
      cases he
      rw [mem_extensions_iff hs]
      rintro (hdouble | ⟨hc, hopens⟩)
      · exact hdouble hnone
      · obtain ⟨hslash, hstar⟩ := hcomment hc d rfl
        exact hopens.elim hslash hstar
  · refine begins_cutSingle hsign hblank ?_
    intro s _ d hd
    cases hd

end Signs

/-- The cut at a mark is a piece that the text begins with. -/
theorem begins_cutMark {c : Char} (cs : List Char) (hdigit : ¬c.isDigit = true)
    (hword : ¬startsWord c = true) (hblank : isBlank c = false) :
    Begins (cutMark c cs).1 (cutMark c cs).2 := by
  rw [cutMark.eq_def]
  split
  · exact .token .lineBreak trivial
  · exact begins_cutText _
  · exact begins_cutLineComment _
  · exact begins_cutBlockComment _
  · rename_i hbreak hquote hline hblock
    refine begins_cutSign ?_ hblank ?_
    · rintro (h | h | h | h | h)
      · exact absurd h hdigit
      · exact absurd h hword
      · exact absurd h hbreak
      · exact absurd h hquote
      · exact h
    · intro hc d hd
      obtain ⟨more, hcs⟩ := List.head?_eq_some_iff.1 hd
      exact ⟨fun hslash => hline more hc (hslash ▸ hcs), fun hstar => hblock more hc (hstar ▸ hcs)⟩

/-- What is cut off a text begins it. -/
theorem begins_cut (c : Char) (cs : List Char) : Begins (cut c cs).1 (cut c cs).2 := by
  unfold cut
  split
  · exact begins_cutNumber cs ‹_›
  · split
    · exact begins_cutWord cs ‹_›
    · split
      · exact begins_cutBlank cs ‹_›
      · exact begins_cutMark cs ‹_› ‹_› (Bool.eq_false_iff.2 ‹_›)

/-! ## What begins a text is cut off -/

/-- A sign is neither a digit, nor part of a word, nor a blank, a line break or a quote. -/
theorem singleSign?_facts {c : Char} {s : Sign} (h : singleSign? c = some s) :
    c.isDigit = false ∧ startsWord c = false ∧ isBlank c = false ∧ c ≠ '\n' ∧ c ≠ '"' := by
  unfold singleSign? at h
  split at h <;> cases h <;> decide

/-- Where neither a line break, nor a string, nor a comment begins, a sign is cut. -/
theorem cutMark_of_other {c : Char} {rest : List Char} (hbreak : c ≠ '\n') (hquote : c ≠ '"')
    (hcomment : c = '/' → ∀ d ∈ rest.head?, d ≠ '/' ∧ d ≠ '*') :
    cutMark c rest = cutSign c rest := by
  rw [cutMark.eq_def]
  split
  · exact absurd rfl hbreak
  · exact absurd rfl hquote
  · exact absurd rfl (hcomment rfl '/' rfl).1
  · exact absurd rfl (hcomment rfl '*' rfl).2
  · rfl

/-- A sign is cut alone if it makes no sign of two characters with the next one. -/
theorem cutSign_of_none {c : Char} {rest : List Char}
    (h : ∀ d ∈ rest.head?, doubleSign? c d = none) : cutSign c rest = cutSingle c rest := by
  rw [cutSign.eq_def]
  split
  · rw [h _ rfl]
  · rfl

/-- A sign of one character is cut as such if no extension of it follows. -/
theorem cut_singleSign {c : Char} {s : Sign} {rest : List Char} (hs : singleSign? c = some s)
    (hstops : ∀ d ∈ rest.head?, d ∉ s.extensions) :
    cut c rest = (⟨.token (.sign s), [c]⟩, rest) := by
  obtain ⟨hdigit, hword, hblank, hbreak, hquote⟩ := singleSign?_facts hs
  simp only [mem_extensions_iff hs, not_or, not_and, Decidable.not_not] at hstops
  have hdouble : ∀ d ∈ rest.head?, doubleSign? c d = none := fun d hd => (hstops d hd).1
  have hcomment : c = '/' → ∀ d ∈ rest.head?, d ≠ '/' ∧ d ≠ '*' := by
    intro hc d hd
    exact (hstops d hd).2 hc
  simp only [cut, hdigit, hword, hblank, Bool.false_eq_true, if_false]
  rw [cutMark_of_other hbreak hquote hcomment, cutSign_of_none hdouble, cutSingle, hs]

/-- A sign of two characters is cut as such, whatever follows. -/
theorem cut_doubleSign {c d : Char} {s : Sign} (hs : doubleSign? c d = some s)
    (rest : List Char) : cut c (d :: rest) = (⟨.token (.sign s), [c, d]⟩, rest) := by
  unfold doubleSign? at hs
  split at hs <;> cases hs <;> rfl

/-- A sign is spelled by one character or by two. -/
theorem spelling_cases (s : Sign) : (∃ c, s.spelling = [c] ∧ singleSign? c = some s) ∨
    ∃ c d, s.spelling = [c, d] ∧ doubleSign? c d = some s := by
  cases s with
  | arrow | equalEqual | bangEqual | lessEqual | greaterEqual => exact .inr ⟨_, _, rfl, rfl⟩
  | _ => exact .inl ⟨_, rfl, rfl⟩

/-- A character that starts no token and is no blank is cut as a stray character. -/
theorem cut_stray {c : Char} (hunspelled : ¬StartsToken c) (hblank : isBlank c = false)
    (rest : List Char) : cut c rest = (⟨.stray c, [c]⟩, rest) := by
  simp only [StartsToken, not_or, Bool.not_eq_true, Decidable.not_not] at hunspelled
  obtain ⟨hdigit, hword, hbreak, hquote, hsingle⟩ := hunspelled
  have hdouble : ∀ d ∈ rest.head?, doubleSign? c d = none := by
    intro d _
    rw [Option.eq_none_iff_forall_ne_some]
    intro s hs
    exact singleSign?_of_doubleSign? hs hsingle
  have hslash : c ≠ '/' := by
    rintro rfl
    cases hsingle
  simp only [cut, hdigit, hword, hblank, Bool.false_eq_true, if_false]
  rw [cutMark_of_other hbreak hquote (absurd · hslash), cutSign_of_none hdouble, cutSingle, hsingle]

/-- A token is cut off where its spelling stands and stops. -/
theorem cut_of_spells {t : Token} {chars rest : List Char} (h : Spells t chars)
    (hstops : t.StopsBefore chars rest) :
    ∃ c cs, chars = c :: cs ∧ cut c (cs ++ rest) = (⟨.token t, chars⟩, rest) := by
  cases h with
  | whole nonempty digits =>
    obtain ⟨d, ds, rfl⟩ := List.exists_cons_of_ne_nil nonempty
    refine ⟨d, ds, rfl, ?_⟩
    rw [cut, if_pos (digits d (List.mem_cons_self ..)), ← List.cons_append]
    exact cutNumber_whole digits hstops.1 (hstops.2 (ne_point_of_isDigit digits))
  | @fraction ds fs nonempty digits =>
    obtain ⟨d, ds, rfl⟩ := List.exists_cons_of_ne_nil nonempty.1
    refine ⟨d, ds ++ '.' :: fs, rfl, ?_⟩
    rw [cut, if_pos (digits d (List.mem_cons_self ..)), ← List.cons_append, ← List.cons_append]
    exact cutNumber_fraction nonempty.2 digits hstops.1
  | @text cs unquoted =>
    refine ⟨'"', cs ++ ['"'], rfl, ?_⟩
    show cutText (cs ++ ['"'] ++ rest) = _
    rw [cutText, List.append_assoc, List.singleton_append, splitAfter?_append_mark unquoted]
    simp
  | truth => exact ⟨_, _, rfl, cut_word rfl (List.all_eq_true.1 rfl) hstops⟩
  | falsity => exact ⟨_, _, rfl, cut_word rfl (List.all_eq_true.1 rfl) hstops⟩
  | keyword word =>
    obtain ⟨c, cs, hspelling, starts, continues⟩ := spelling_is_word word
    have hword : String.ofList (c :: cs) = word.spelling := by
      rw [← hspelling, String.ofList_toList]
    refine ⟨c, cs, hspelling, ?_⟩
    rw [cut_word starts (List.all_eq_true.1 continues) hstops, hword, ofWord_spelling, hspelling]
  | name starts continues free untrue =>
    refine ⟨_, _, rfl, ?_⟩
    rw [cut_word starts continues hstops, ofWord_of_free free untrue]
  | sign s =>
    rcases spelling_cases s with ⟨c, hspelling, hs⟩ | ⟨c, d, hspelling, hs⟩
    · refine ⟨c, [], hspelling, ?_⟩
      rw [hspelling]
      exact cut_singleSign hs hstops
    · refine ⟨c, [d], hspelling, ?_⟩
      rw [hspelling]
      exact cut_doubleSign hs rest
  | lineBreak => exact ⟨'\n', [], rfl, rfl⟩

/-- A piece that begins a text is cut off. -/
theorem cut_of_begins {p : Piece} {rest : List Char} (h : Begins p rest) :
    ∃ c cs, p.chars = c :: cs ∧ cut c (cs ++ rest) = (p, rest) := by
  cases h with
  | token spelled stops => exact cut_of_spells spelled stops
  | @blanks chars _ nonempty blank stops =>
    obtain ⟨c, cs, rfl⟩ := List.exists_cons_of_ne_nil nonempty
    exact ⟨c, cs, rfl, cut_blanks blank stops⟩
  | @lineComment body _ unbroken stops =>
    exact ⟨'/', '/' :: body, rfl, cutLineComment_append unbroken stops⟩
  | @blockComment body _ unclosed =>
    refine ⟨'/', '*' :: body ++ ['*', '/'], rfl, ?_⟩
    show cutBlockComment (body ++ ['*', '/'] ++ rest) = _
    rw [cutBlockComment, List.append_assoc]
    simp [splitAfterClose?_append_close unclosed]
  | stray unspelled unblank => exact ⟨_, [], rfl, cut_stray unspelled unblank rest⟩
  | @openText body unquoted =>
    refine ⟨'"', body, rfl, ?_⟩
    show cutText (body ++ []) = _
    rw [cutText, List.append_nil, splitAfter?_eq_none_iff.2 unquoted]
  | @openComment body unclosed =>
    refine ⟨'/', '*' :: body, rfl, ?_⟩
    show cutBlockComment (body ++ []) = _
    rw [cutBlockComment, List.append_nil, splitAfterClose?_of_unclosed unclosed]

/-! ## Separators -/

/-- The characters that no token goes on with: blanks and line breaks. -/
def isSeparator (c : Char) : Bool :=
  isBlank c || c = '\n'

/-- The separators are the blanks and the line break. -/
theorem isSeparator_iff {c : Char} :
    isSeparator c = true ↔ c = ' ' ∨ c = '\t' ∨ c = '\r' ∨ c = '\x0c' ∨ c = '\n' := by
  simp [isSeparator, isBlank, or_assoc]

/-- Every token stops at the end of the text. -/
theorem stopsBefore_nil (t : Token) (chars : List Char) : t.StopsBefore chars [] := by
  cases t <;> simp [Token.StopsBefore]

/-- Every token stops before a separator. -/
theorem stopsBefore_separator (t : Token) (chars : List Char) {c : Char}
    (hc : isSeparator c = true) (rest : List Char) : t.StopsBefore chars (c :: rest) := by
  have hfacts : c.isDigit = false ∧ continuesWord c = false ∧ c ≠ '.' ∧
      ∀ s : Sign, c ∉ s.extensions := by
    rcases isSeparator_iff.1 hc with rfl | rfl | rfl | rfl | rfl <;>
      exact ⟨by decide, by decide, by decide, fun s => by cases s <;> decide⟩
  obtain ⟨hdigit, hword, hpoint, hsign⟩ := hfacts
  cases t <;> simp [Token.StopsBefore, hdigit, hword, hpoint, hsign]

/-- Where a token stops depends on no more of the text than stands before the next separator. -/
theorem stopsBefore_takeWhile_iff {t : Token} {chars rest : List Char} :
    t.StopsBefore chars (rest.takeWhile (!isSeparator ·)) ↔ t.StopsBefore chars rest := by
  cases rest with
  | nil => rfl
  | cons c rest =>
    by_cases hc : isSeparator c = true
    · have hempty : (c :: rest).takeWhile (!isSeparator ·) = [] := by simp [hc]
      rw [hempty]
      exact ⟨fun _ => stopsBefore_separator t chars hc rest, fun _ => stopsBefore_nil t chars⟩
    · have hkept : (c :: rest).takeWhile (!isSeparator ·) =
          c :: rest.takeWhile (!isSeparator ·) := by simp [hc]
      -- Only a number looks at a second character.
      have hsecond : (∀ d more, rest.takeWhile (!isSeparator ·) = d :: more → d.isDigit = false) ↔
          ∀ d more, rest = d :: more → d.isDigit = false := by
        cases rest with
        | nil => rfl
        | cons d rest =>
          by_cases hd : isSeparator d = true
          · have hdigit : d.isDigit = false := by
              rcases isSeparator_iff.1 hd with rfl | rfl | rfl | rfl | rfl <;> decide
            simp [hd, hdigit]
          · simp [hd]
      rw [hkept]
      cases t with
      | number value =>
        simp only [Token.StopsBefore, List.head?_cons, List.cons.injEq]
        refine and_congr Iff.rfl (imp_congr Iff.rfl ?_)
        by_cases hpoint : c = '.'
        · simpa [hpoint] using hsecond
        · simp [hpoint]
      | _ => rfl

/-! ## Whole texts -/

/-- A text that begins with a piece is cut into this piece and the pieces of the rest. -/
theorem cutAll_of_begins {p : Piece} {rest : List Char} (h : Begins p rest) :
    cutAll (p.chars ++ rest) = p :: cutAll rest := by
  obtain ⟨c, cs, hchars, hcut⟩ := cut_of_begins h
  rw [hchars, List.cons_append, cutAll, hcut]

/-- Whatever holds of the empty text, and of a text if it holds of what stands behind its first
piece, holds of every text. -/
theorem text_induction {P : List Char → Prop} (nil : P [])
    (piece : ∀ p rest, Begins p rest → P rest → P (p.chars ++ rest)) (text : List Char) :
    P text := by
  fun_induction cutAll text with
  | case1 => exact nil
  | case2 c cs ih =>
    rw [← (faithful_cut c cs).2]
    exact piece _ _ (begins_cut c cs) ih

/-- The pieces of a text make up the text. -/
theorem flatMap_chars_cutAll (text : List Char) : (cutAll text).flatMap chars = text := by
  fun_induction cutAll text with
  | case1 => rfl
  | case2 c cs ih =>
    have htext := (faithful_cut c cs).2
    rw [List.flatMap_cons, ih, htext]

/-- Every piece of a text begins what is left of the text where the piece stands. -/
theorem begins_of_cutAll {text : List Char} {front : List Piece} {p : Piece} {back : List Piece}
    (h : cutAll text = front ++ p :: back) : Begins p (back.flatMap chars) := by
  induction text using text_induction generalizing front with
  | nil =>
    rw [cutAll] at h
    cases front <;> cases h
  | piece q rest hbegins ih =>
    rw [cutAll_of_begins hbegins] at h
    cases front with
    | nil =>
      cases h
      rwa [flatMap_chars_cutAll]
    | cons q front => exact ih (List.cons.inj h).2

end Piece

end Watershed
