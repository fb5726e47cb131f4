import Watershed.Proofs.Scan.Lines

/-!
# Scanning tiles the text

A text is laid out from left to right in pieces that leave no gaps: the spellings of tokens, runs
of blanks, comments and faulty stretches. `Tiling` says what each piece is and what it gives, a
lexeme, an error or nothing, in terms of the characters alone, and puts everything on the line that
the characters before it come to. Every scan is such a layout (`scan_tiling`).
-/

set_option autoImplicit false

namespace Watershed

/-! ## Layouts -/

/-- The line that a text comes to. -/
def lineAfter (before : List Char) : Nat :=
  1 + before.count '\n'

/-- The layout of a text that stands after other characters: it is empty, or begins with a piece
and goes on after it. The last lexeme stands for the end of the text. A closed comment reaches to
its first closing mark, a line comment to the end of its line, and what is never closed to the end
of the text. -/
inductive Tiling : List Char → List Char → List Lexeme → List LexicalError → Prop
  | ending (before : List Char) : Tiling before [] [⟨.endOfText, "", lineAfter before⟩] []
  | token {before chars after : List Char} {t : Token} {ls : List Lexeme}
      {es : List LexicalError} (nonempty : chars ≠ []) (spelled : Spells t chars)
      (more : Tiling (before ++ chars) after ls es) :
      Tiling before (chars ++ after) (⟨t, String.ofList chars, lineAfter before⟩ :: ls) es
  | blanks {before chars after : List Char} {ls : List Lexeme} {es : List LexicalError}
      (nonempty : chars ≠ [])
      (blank : ∀ c ∈ chars, c = ' ' ∨ c = '\t' ∨ c = '\r' ∨ c = '\x0c')
      (more : Tiling (before ++ chars) after ls es) : Tiling before (chars ++ after) ls es
  | lineComment {before body after : List Char} {ls : List Lexeme} {es : List LexicalError}
      (unbroken : '\n' ∉ body) (stops : ∀ c ∈ after.head?, c = '\n')
      (more : Tiling (before ++ ('/' :: '/' :: body)) after ls es) :
      Tiling before ('/' :: '/' :: body ++ after) ls es
  | blockComment {before body after : List Char} {ls : List Lexeme} {es : List LexicalError}
      (unclosed : ¬['*', '/'] <:+: body)
      (more : Tiling (before ++ ('/' :: '*' :: body ++ ['*', '/'])) after ls es) :
      Tiling before ('/' :: '*' :: body ++ ['*', '/'] ++ after) ls es
  | stray {before after : List Char} {c : Char} {ls : List Lexeme} {es : List LexicalError}
      (unspelled : ∀ t cs, ¬Spells t (c :: cs)) (unblank : Piece.isBlank c = false)
      (more : Tiling (before ++ [c]) after ls es) :
      Tiling before (c :: after) ls (.strayCharacter c (lineAfter before) :: es)
  | openText {before body : List Char} {ls : List Lexeme} {es : List LexicalError}
      (unquoted : '"' ∉ body) (more : Tiling (before ++ ('"' :: body)) [] ls es) :
      Tiling before ('"' :: body) ls (.unclosedText (lineAfter before) :: es)
  | openComment {before body : List Char} {ls : List Lexeme} {es : List LexicalError}
      (unclosed : ¬['*', '/'] <:+: body)
      (more : Tiling (before ++ ('/' :: '*' :: body)) [] ls es) :
      Tiling before ('/' :: '*' :: body) ls (.unclosedComment (lineAfter before) :: es)

namespace Piece

/-- A cut lays the first piece of a text if a layout of what follows gives one of the whole text,
with what the piece gives in front. -/
def Lays (text : List Char) (r : Piece × List Char) : Prop :=
  ∀ before ls es, Tiling (before ++ r.1.chars) r.2 ls es →
    Tiling before text ((lexeme? (lineAfter before, r.1)).toList ++ ls)
      ((error? (lineAfter before, r.1)).toList ++ es)

/-- What a spelling begins with starts a token. -/
theorem startsToken_of_spells {t : Token} {c : Char} {cs : List Char} (h : Spells t (c :: cs)) :
    StartsToken c := by
  generalize hchars : c :: cs = chars at h
  cases h with
  | whole nonempty digits =>
    subst hchars
    exact .inl (digits c (by simp))
  | @fraction ds fs nonempty digits =>
    obtain ⟨d, ds', rfl⟩ := List.exists_cons_of_ne_nil nonempty.1
    cases hchars
    exact .inl (digits c (by simp))
  | text unquoted =>
    cases hchars
    exact .inr (.inr (.inr (.inl rfl)))
  | truth =>
    cases hchars
    exact .inr (.inl (by decide))
  | falsity =>
    cases hchars
    exact .inr (.inl (by decide))
  | keyword word =>
    cases word <;> cases hchars <;> exact .inr (.inl (by decide))
  | name starts continues free untrue =>
    cases hchars
    exact .inr (.inl starts)
  | sign s =>
    cases s <;> cases hchars <;> exact .inr (.inr (.inr (.inr (by decide))))
  | lineBreak =>
    cases hchars
    exact .inr (.inr (.inl rfl))

/-- A piece that begins a text is the first one of a layout. -/
theorem Begins.lays {p : Piece} {rest : List Char} (h : Begins p rest) :
    Lays (p.chars ++ rest) (p, rest) := by
  intro before ls es hmore
  cases h with
  | token spelled _ => exact .token spelled.ne_nil spelled hmore
  | blanks nonempty blank _ =>
    exact .blanks nonempty (fun c hc => isBlank_iff.1 (blank c hc)) hmore
  | lineComment unbroken stops => exact .lineComment unbroken stops hmore
  | blockComment unclosed => exact .blockComment unclosed hmore
  | stray unspelled unblank =>
    exact .stray (fun t cs hspells => unspelled (startsToken_of_spells hspells)) unblank hmore
  | @openText body unquoted =>
    have htiling := Tiling.openText unquoted hmore
    rwa [List.append_nil]
  | @openComment body unclosed =>
    have htiling := Tiling.openComment unclosed hmore
    rwa [List.append_nil]

/-- Every cut lays its piece, by the kind of the piece. -/
theorem lays_cut (c : Char) (cs : List Char) : Lays (c :: cs) (cut c cs) := by
  have hlays := (begins_cut c cs).lays
  rwa [(faithful_cut c cs).2] at hlays

/-! ## Whole texts -/

/-- A text comes to one line more for each line break in it. -/
theorem lineAfter_append (before chars : List Char) :
    lineAfter (before ++ chars) = lineAfter before + chars.count '\n' := by
  unfold lineAfter
  rw [List.count_append]
  omega

/-- What is picked from placed pieces is picked from the first and then from the others. -/
theorem filterMap_place_cons {β : Type} (f : Nat × Piece → Option β) (line : Nat) (p : Piece)
    (ps : List Piece) :
    (place line (p :: ps)).filterMap f =
      (f (line, p)).toList ++ (place (line + p.lineBreaks) ps).filterMap f := by
  rw [place, List.filterMap_cons]
  cases f (line, p) <;> rfl

/-- The pieces of a text lay it out, wherever it stands. -/
theorem tiling_cutAll (before text : List Char) :
    Tiling before text
      ((place (lineAfter before) (cutAll text)).filterMap lexeme? ++
        [⟨.endOfText, "", lineAfter (before ++ text)⟩])
      ((place (lineAfter before) (cutAll text)).filterMap error?) := by
  fun_induction cutAll text generalizing before with
  | case1 =>
    rw [List.append_nil]
    exact .ending before
  | case2 c cs ih =>
    have htext := (faithful_cut c cs).2
    have hmore := ih (before ++ (cut c cs).1.chars)
    rw [List.append_assoc, htext, lineAfter_append] at hmore
    have hlays := lays_cut c cs before _ _ hmore
    rwa [filterMap_place_cons, filterMap_place_cons, List.append_assoc]

end Piece

/-- Every scan is a layout of its text: the pieces leave no gaps, the lexemes and the errors are
those of the pieces, in order, and each stands on its line. -/
theorem scan_tiling (text : String) :
    Tiling [] text.toList (Scan.ofText text).lexemes (Scan.ofText text).errors := by
  -- The line counter shows the lines that the layout asks for.
  rw [Scan.ofText, Scan.lexemes_ofChars, Scan.errors_ofChars]
  exact Piece.tiling_cutAll [] text.toList

end Watershed
