import Watershed.Proofs.Scan.Tiling

/-!
# Scanning what is written out

Words and signs that are written one after the other, with a space between any two, are scanned as
the tokens that they spell. A word goes on as far as it can, so it is the space that ends it.
-/

set_option autoImplicit false

namespace Watershed

/-- Whether a scan is without errors and gives these tokens before the end of the text. -/
def Scan.Gives (k : Scan) (tokens : List Token) : Prop :=
  k.errors = [] ∧ k.lexemes.map Lexeme.token = tokens ++ [.endOfText]

/-- Whether a token is spelled as a word or a sign: it is a reserved word, a name or a sign. -/
def Token.isPlain : Token → Bool
  | keyword _ => true
  | name _ => true
  | sign _ => true
  | _ => false

/-- Words and signs with a space between any two, and the tokens they spell. -/
inductive Written : List Char → List Token → Prop
  | last {t : Token} {chars : List Char} (plain : t.isPlain = true) (spelled : Spells t chars) :
      Written chars [t]
  | more {t : Token} {chars rest : List Char} {ts : List Token} (plain : t.isPlain = true)
      (spelled : Spells t chars) (others : Written rest ts) :
      Written (chars ++ ' ' :: rest) (t :: ts)

namespace Piece

/-! ## Cutting off tokens -/

/-- No spelling begins with a blank. -/
theorem isBlank_head_of_spells {t : Token} {chars : List Char} (h : Spells t chars) :
    ∀ c ∈ chars.head?, isBlank c = false := by
  intro c hc
  obtain ⟨cs, rfl⟩ := List.head?_eq_some_iff.1 hc
  rw [← Bool.not_eq_true]
  intro hblank
  have hstarts := startsToken_of_spells h
  unfold StartsToken at hstarts
  rcases isBlank_iff.1 hblank with rfl | rfl | rfl | rfl <;> revert hstarts <;> decide

/-- A token is cut off if the text ends behind its spelling or goes on with a space. -/
theorem cut_spaced {t : Token} {chars : List Char} (h : Spells t chars) (rest : List Char)
    (hrest : ∀ c ∈ rest.head?, c = ' ') :
    ∃ c cs, chars = c :: cs ∧ cut c (cs ++ rest) = (⟨.token t, chars⟩, rest) := by
  refine cut_of_spells h ?_
  cases rest with
  | nil => exact stopsBefore_nil t chars
  | cons c rest =>
    obtain rfl := hrest c rfl
    exact stopsBefore_separator t chars rfl rest

/-! ## Whole texts -/

/-- Whether a text is cut into pieces that give these tokens and no errors, on whatever line it
begins. -/
def Yields (text : List Char) (tokens : List Token) : Prop :=
  ∀ line, ((place line (cutAll text)).filterMap lexeme?).map Lexeme.token = tokens ∧
    (place line (cutAll text)).filterMap error? = []

/-- A token in front of a text gives this token, and then what the text gives. -/
theorem yields_token {c : Char} {cs chars rest : List Char} {t : Token} {tokens : List Token}
    (hcut : cut c cs = (⟨.token t, chars⟩, rest)) (h : Yields rest tokens) :
    Yields (c :: cs) (t :: tokens) := by
  intro line
  rw [cutAll, hcut, filterMap_place_cons, filterMap_place_cons]
  obtain ⟨hlexemes, herrors⟩ := h (line + lineBreaks ⟨.token t, chars⟩)
  rw [List.map_append, hlexemes, herrors]
  exact ⟨rfl, rfl⟩

/-- A space in front of a text that does not begin with a blank gives nothing. -/
theorem yields_space {rest : List Char} {tokens : List Token} (h : Yields rest tokens)
    (hrest : ∀ c ∈ rest.head?, isBlank c = false) : Yields (' ' :: rest) tokens := by
  have hcut : cut ' ' rest = (⟨.blank, [' ']⟩, rest) := by
    cases rest with
    | nil => rfl
    | cons c cs =>
      have hstop := hrest c rfl
      show cutBlank (' ' :: c :: cs) = _
      simp [cutBlank, hstop, show isBlank ' ' = true from rfl]
  intro line
  rw [cutAll, hcut, filterMap_place_cons, filterMap_place_cons]
  obtain ⟨hlexemes, herrors⟩ := h (line + lineBreaks ⟨.blank, [' ']⟩)
  rw [List.map_append, hlexemes, herrors]
  exact ⟨rfl, rfl⟩

end Piece

namespace Written

variable {text : List Char} {tokens : List Token}

/-- Words and signs do not begin with a blank. -/
theorem isBlank_head (h : Written text tokens) : ∀ c ∈ text.head?, Piece.isBlank c = false := by
  cases h with
  | last plain spelled => exact Piece.isBlank_head_of_spells spelled
  | more plain spelled _ =>
    have hhead := Piece.isBlank_head_of_spells spelled
    obtain ⟨c, cs, rfl⟩ := List.exists_cons_of_ne_nil spelled.ne_nil
    exact hhead

/-- Words and signs with spaces between them give their tokens and no errors. -/
theorem yields (h : Written text tokens) : Piece.Yields text tokens := by
  induction h with
  | last plain spelled =>
    obtain ⟨c, cs, rfl, hcut⟩ := Piece.cut_spaced spelled [] (by simp)
    rw [List.append_nil] at hcut
    refine Piece.yields_token hcut fun line => ?_
    rw [Piece.cutAll]
    exact ⟨rfl, rfl⟩
  | @more t chars rest ts plain spelled others ih =>
    obtain ⟨c, cs, rfl, hcut⟩ := Piece.cut_spaced spelled (' ' :: rest) (by simp)
    exact Piece.yields_token hcut (Piece.yields_space ih others.isBlank_head)

end Written

/-- Words and signs that are written out are scanned as the tokens they spell. -/
theorem Scan.gives_of_written {text : String} {tokens : List Token}
    (h : Written text.toList tokens) : (Scan.ofText text).Gives tokens := by
  obtain ⟨hlexemes, herrors⟩ := h.yields 1
  rw [Scan.Gives, Scan.ofText, Scan.errors_ofChars, Scan.lexemes_ofChars, List.map_append, hlexemes]
  exact ⟨herrors, rfl⟩

end Watershed
