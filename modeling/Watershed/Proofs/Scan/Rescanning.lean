import Watershed.Proofs.Scan.Words

/-!
# Scanning tokens again

Every token of a text is the longest one where it stands, and its spelling gives it back wherever it
stands before a space. So the tokens of a text, written one after the other with a space between any
two, are scanned without errors as the same tokens with the same spellings. Only lines get lost,
together with what was no token.
-/

set_option autoImplicit false

namespace Watershed

/-- What a lexeme is apart from its line. -/
def Lexeme.content (l : Lexeme) : Token × String :=
  (l.token, l.spelling)

/-- The lexemes of a scan without the one that stands for the end of the text. -/
def Scan.body (k : Scan) : List Lexeme :=
  k.lexemes.filter (·.token ≠ .endOfText)

/-- The spellings of lexemes with a space between any two. -/
def spaced (ls : List Lexeme) : String :=
  " ".intercalate (ls.map Lexeme.spelling)

/-- A lexeme stands in a text between two stretches of it: one of the pieces that the text is cut
into gives the lexeme, and the stretches are what the pieces before and behind it are made of. -/
def StandsBetween (text : String) (before : List Char) (l : Lexeme) (after : List Char) : Prop :=
  ∃ front p back, Piece.cutAll text.toList = front ++ p :: back ∧
    front.flatMap Piece.chars = before ∧ back.flatMap Piece.chars = after ∧
    Piece.lexeme? (lineAfter before, p) = some l

/-- Whether a lexeme is the longest one that can be made of its spelling and the text behind it. No
reserved word is a name. -/
structure Lexeme.IsLongestBefore (l : Lexeme) (after : List Char) : Prop where
  unreserved : ∀ n, l.token = .name n →
    (∀ word : Keyword, l.spelling ≠ word.spelling) ∧ l.spelling ≠ "true" ∧ l.spelling ≠ "false"
  stops : l.token.StopsBefore l.spelling.toList after

namespace Piece

/-! ## Tokens where they stand -/

/-- A piece gives a lexeme exactly if it is a token, and the lexeme has its characters and its line.
-/
theorem lexeme?_eq_some_iff {line : Nat} {p : Piece} {l : Lexeme} :
    lexeme? (line, p) = some l ↔
      p.kind = .token l.token ∧ String.ofList p.chars = l.spelling ∧ line = l.line := by
  obtain ⟨kind, chars⟩ := p
  obtain ⟨token, spelling, line'⟩ := l
  cases kind <;> simp [lexeme?]

/-- A piece that gives a lexeme spells its token and stops where the rest begins. -/
theorem begins_token {p : Piece} {rest : List Char} (h : Begins p rest) {line : Nat} {l : Lexeme}
    (hl : lexeme? (line, p) = some l) :
    Spells l.token l.spelling.toList ∧ l.token.StopsBefore l.spelling.toList rest := by
  obtain ⟨hkind, hchars, -⟩ := lexeme?_eq_some_iff.1 hl
  rw [← hchars, String.toList_ofList]
  cases h with
  | token spelled stops =>
    cases hkind
    exact ⟨spelled, stops⟩
  | _ => cases hkind

/-- A placed piece is on the line that the pieces before it come to. -/
theorem exists_of_mem_place {line : Nat} {ps : List Piece} {x : Nat × Piece}
    (h : x ∈ place line ps) : ∃ front back, ps = front ++ x.2 :: back ∧
      x.1 = line + (front.flatMap chars).count '\n' := by
  induction ps generalizing line with
  | nil => cases h
  | cons p ps ih =>
    rcases List.mem_cons.1 h with rfl | hmore
    · exact ⟨[], ps, rfl, rfl⟩
    · obtain ⟨front, back, rfl, hline⟩ := ih hmore
      refine ⟨p :: front, back, rfl, ?_⟩
      rw [List.flatMap_cons, List.count_append, hline, lineBreaks]
      omega

end Piece

/-- The end of the text has no spelling. -/
theorem Spells.ne_endOfText {t : Token} {chars : List Char} (h : Spells t chars) :
    t ≠ .endOfText := by
  rintro rfl
  cases h

/-- A lexeme and the two stretches that it stands between make up the text. -/
theorem StandsBetween.append_eq {text : String} {before after : List Char} {l : Lexeme}
    (h : StandsBetween text before l after) :
    before ++ l.spelling.toList ++ after = text.toList := by
  obtain ⟨front, p, back, hcut, rfl, rfl, hl⟩ := h
  rw [← (Piece.lexeme?_eq_some_iff.1 hl).2.1, String.toList_ofList,
    ← Piece.flatMap_chars_cutAll text.toList, hcut]
  simp

/-- A lexeme that stands in a text is spelled by its spelling. -/
theorem StandsBetween.spells {text : String} {before after : List Char} {l : Lexeme}
    (h : StandsBetween text before l after) : Spells l.token l.spelling.toList := by
  obtain ⟨front, p, back, hcut, -, -, hl⟩ := h
  exact (Piece.begins_token (Piece.begins_of_cutAll hcut) hl).1

/-- A lexeme that stands in a text is the longest one before what follows it. -/
theorem StandsBetween.isLongestBefore {text : String} {before after : List Char} {l : Lexeme}
    (h : StandsBetween text before l after) : l.IsLongestBefore after := by
  obtain ⟨front, p, back, hcut, -, rfl, hl⟩ := h
  obtain ⟨hspells, hstops⟩ := Piece.begins_token (Piece.begins_of_cutAll hcut) hl
  refine ⟨?_, hstops⟩
  intro n hn
  rw [hn] at hspells
  generalize hchars : l.spelling.toList = chars at hspells
  cases hspells with
  | name starts continues free untrue =>
    rw [← String.ofList_toList (s := l.spelling), hchars]
    exact ⟨fun word => (free word).symm, untrue⟩

/-! ## The lexemes of a scan -/

/-- Every lexeme that the pieces of a text give stands in the text. -/
theorem exists_standsBetween {text : String} {l : Lexeme}
    (h : l ∈ (Piece.place 1 (Piece.cutAll text.toList)).filterMap Piece.lexeme?) :
    ∃ before after, StandsBetween text before l after := by
  obtain ⟨x, hx, hl⟩ := List.mem_filterMap.1 h
  obtain ⟨front, back, hcut, hline⟩ := Piece.exists_of_mem_place hx
  refine ⟨_, _, front, x.2, back, hcut, rfl, rfl, ?_⟩
  rw [lineAfter, ← hline]
  exact hl

/-- The lexemes of a scan without the end are those that the pieces of the text give. -/
theorem Scan.body_ofText (text : String) :
    (ofText text).body = (Piece.place 1 (Piece.cutAll text.toList)).filterMap Piece.lexeme? := by
  have hkept : ∀ l ∈ (Piece.place 1 (Piece.cutAll text.toList)).filterMap Piece.lexeme?,
      decide (l.token ≠ .endOfText) = true := by
    intro l hl
    obtain ⟨before, after, hstands⟩ := exists_standsBetween hl
    exact decide_eq_true hstands.spells.ne_endOfText
  rw [body, ofText, lexemes_ofChars, List.filter_append, List.filter_eq_self.2 hkept]
  simp [ending]

/-- The last lexeme of a scan stands for the end of the text, on the last line of it. -/
theorem Scan.lexemes_ofText (text : String) :
    (ofText text).lexemes = (ofText text).body ++ [ending (1 + text.toList.count '\n')] := by
  rw [body_ofText, ofText, lexemes_ofChars]

/-- The lexemes of a scan are spelled by their spellings. -/
theorem Scan.spells_of_mem_body {text : String} {l : Lexeme} (h : l ∈ (ofText text).body) :
    Spells l.token l.spelling.toList := by
  rw [body_ofText] at h
  obtain ⟨before, after, hstands⟩ := exists_standsBetween h
  exact hstands.spells

/-! ## Written out with spaces -/

namespace Piece

/-- The piece that gives a lexeme. -/
def ofLexeme (l : Lexeme) : Piece :=
  ⟨.token l.token, l.spelling.toList⟩

/-- A single space. -/
def space : Piece :=
  ⟨.blank, [' ']⟩

/-- A text begins with a single space if no blank follows it. -/
theorem begins_space {rest : List Char} (h : ∀ c ∈ rest.head?, isBlank c = false) :
    Begins space rest := by
  refine .blanks (by simp) ?_ h
  intro c hc
  obtain rfl := List.mem_singleton.1 hc
  rfl

/-- Tokens that are written with a space between any two are cut off one by one. -/
theorem cutAll_spaced {ls : List Lexeme} (h : ∀ l ∈ ls, Spells l.token l.spelling.toList) :
    cutAll (spaced ls).toList = (ls.map ofLexeme).intersperse space := by
  induction ls with
  | nil =>
    show cutAll [] = []
    rw [cutAll]
  | cons l ls ih =>
    obtain ⟨hl, hmore⟩ := List.forall_mem_cons.1 h
    cases ls with
    | nil =>
      have htext : (spaced [l]).toList = (ofLexeme l).chars ++ [] := by simp [spaced, ofLexeme]
      have hbegins : Begins (ofLexeme l) [] := .token hl (stopsBefore_nil _ _)
      rw [htext, cutAll_of_begins hbegins, cutAll]
      rfl
    | cons m ls =>
      have htext : (spaced (l :: m :: ls)).toList =
          (ofLexeme l).chars ++ (space.chars ++ (spaced (m :: ls)).toList) := by
        simp [spaced, ofLexeme, space, String.toList_append]
      have hhead : ∀ c ∈ (spaced (m :: ls)).toList.head?, isBlank c = false := by
        have hm := hmore m (List.mem_cons_self ..)
        obtain ⟨c, cs, hspelling⟩ := List.exists_cons_of_ne_nil hm.ne_nil
        have hbegins : (spaced (m :: ls)).toList.head? = some c := by
          cases ls <;> simp [spaced, String.toList_append, hspelling]
        rw [hbegins]
        rw [hspelling] at hm
        exact isBlank_head_of_spells hm
      have hspace : Begins (ofLexeme l) (space.chars ++ (spaced (m :: ls)).toList) :=
        .token hl (stopsBefore_separator _ _ rfl _)
      rw [htext, cutAll_of_begins hspace, cutAll_of_begins (begins_space hhead), ih hmore]
      rfl

/-- Lexemes written out with spaces give their contents again, and no errors. -/
theorem scanned_spaced (line : Nat) (ls : List Lexeme) :
    ((place line ((ls.map ofLexeme).intersperse space)).filterMap lexeme?).map Lexeme.content =
        ls.map Lexeme.content ∧
      (place line ((ls.map ofLexeme).intersperse space)).filterMap error? = [] := by
  induction ls generalizing line with
  | nil => exact ⟨rfl, rfl⟩
  | cons l ls ih =>
    have hcontent : (lexeme? (line, ofLexeme l)).toList.map Lexeme.content = [l.content] := by
      simp [lexeme?, ofLexeme, Lexeme.content]
    cases ls with
    | nil =>
      simp only [List.map_cons, List.map_nil, List.intersperse_singleton, filterMap_place_cons]
      exact ⟨by simpa [place] using hcontent, rfl⟩
    | cons m ls =>
      obtain ⟨hlexemes, herrors⟩ := ih (line + (ofLexeme l).lineBreaks + space.lineBreaks)
      simp only [List.map_cons, List.intersperse_cons_cons, filterMap_place_cons, List.map_append,
        hcontent] at hlexemes herrors ⊢
      rw [hlexemes, herrors]
      exact ⟨rfl, rfl⟩

end Piece

/-- The tokens of a text, written with a space between any two, are scanned as the same tokens. They
are the longest ones where they stand in the text. -/
theorem tokens_survive_rescanning (text : String) :
    ((Scan.ofText (spaced (Scan.ofText text).body)).errors = [] ∧
      (Scan.ofText (spaced (Scan.ofText text).body)).lexemes.map Lexeme.content =
        (Scan.ofText text).lexemes.map Lexeme.content) ∧
    (∀ l ∈ (Scan.ofText text).body, ∃ before after, StandsBetween text before l after) ∧
    ∀ before l after, StandsBetween text before l after →
      before ++ l.spelling.toList ++ after = text.toList ∧ l.IsLongestBefore after := by
  refine ⟨?_, ?_, ?_⟩
  · have hspells : ∀ l ∈ (Scan.ofText text).body, Spells l.token l.spelling.toList := by
      intro l hl
      exact Scan.spells_of_mem_body hl
    have hcut := Piece.cutAll_spaced hspells
    obtain ⟨hlexemes, herrors⟩ := Piece.scanned_spaced 1 (Scan.ofText text).body
    rw [← hcut] at hlexemes herrors
    refine ⟨(Scan.errors_ofChars _).trans herrors, ?_⟩
    rw [Scan.lexemes_ofText, Scan.lexemes_ofText, List.map_append, List.map_append,
      Scan.body_ofText (spaced _), hlexemes]
    rfl
  · intro l hl
    rw [Scan.body_ofText] at hl
    exact exists_standsBetween hl
  · intro before l after hstands
    exact ⟨hstands.append_eq, hstands.isLongestBefore⟩

/-- `2.5` is a number and `.` stands alone behind it; the quoted marks are no comment. -/
theorem tokens_survive_rescanning_unspaced :
    (Scan.ofText (spaced (Scan.ofText "A1=2.5./\"//\n\"->@").body)).errors = [] ∧
      StandsBetween "A1=2.5./\"//\n\"->@" "A1=".toList ⟨.number 2.5, "2.5", 1⟩
        "./\"//\n\"->@".toList ∧
      Lexeme.IsLongestBefore ⟨.number 2.5, "2.5", 1⟩ "./\"//\n\"->@".toList := by
  obtain ⟨⟨herrors, -⟩, -, hlongest⟩ := tokens_survive_rescanning "A1=2.5./\"//\n\"->@"
  have hstands : StandsBetween "A1=2.5./\"//\n\"->@" "A1=".toList ⟨.number 2.5, "2.5", 1⟩
      "./\"//\n\"->@".toList := by
    refine ⟨(Piece.cutAll "A1=2.5./\"//\n\"->@".toList).take 2,
      ⟨.token (.number 2.5), "2.5".toList⟩,
      (Piece.cutAll "A1=2.5./\"//\n\"->@".toList).drop 3, ?_⟩
    decide +kernel
  exact ⟨herrors, hstands, (hlongest _ _ _ hstands).2⟩

end Watershed
