import Watershed.Proofs.Scan.Cuts

/-!
# Lines in the order of the text

A scan counts the lines as it goes along: its counter is moved on by some kinds of pieces, each in
its own way, and left alone by the others. What the counter shows is always one more than the number
of line breaks so far (`track_cutAll`), since the kinds that leave it alone hold none. The lexemes
and the errors of a scan therefore come in the order of their lines, and their lines run from the
first one to the one the text ends on.
-/

set_option autoImplicit false

namespace Watershed

namespace Piece

/-! ## The line counter -/

/-- The number of line breaks in a piece. -/
def lineBreaks (p : Piece) : Nat :=
  p.chars.count '\n'

/-- Puts pieces on the lines that the text comes to before them: a piece starts one line further
down for each line break before it. -/
def place : (line : Nat) → List Piece → List (Nat × Piece)
  | _, [] => []
  | line, p :: ps => (line, p) :: place (line + p.lineBreaks) ps

/-- A piece whose characters do not include the line break counts for no line. -/
theorem lineBreaks_eq_zero {p : Piece} (h : '\n' ∉ p.chars) : p.lineBreaks = 0 :=
  List.count_eq_zero.2 h

/-- What stands between the marks of a closed comment is its body. -/
theorem commentBody_closed (body : List Char) :
    commentBody ('/' :: '*' :: body ++ ['*', '/']) = body := by
  have hsplit : body ++ ['*', '/'] = (body ++ ['*']) ++ ['/'] := by simp
  show (body ++ ['*', '/']).dropLast.dropLast = body
  rw [hsplit, List.dropLast_concat, List.dropLast_concat]

/-- A character that starts no token is no line break. -/
theorem ne_lineBreak_of_stray {c : Char} (h : ¬StartsToken c) : c ≠ '\n' := by
  rintro rfl
  exact h (.inr (.inr (.inl rfl)))

/-- A run of blanks holds no line break. -/
theorem not_mem_of_blank {chars : List Char} (hblank : ∀ c ∈ chars, isBlank c = true) :
    '\n' ∉ chars := by
  intro hmem
  cases hblank _ hmem

/-- A piece that begins a text moves the line counter on by its line breaks, whatever its kind. -/
theorem Begins.lineBehind_eq {p : Piece} {rest : List Char} (h : Begins p rest) (line : Nat) :
    lineBehind line p = line + p.lineBreaks := by
  cases h with
  | @token t chars rest spelled _ =>
    cases spelled with
    | lineBreak => rfl
    | _ => rfl
  | blanks _ blank _ =>
    rw [lineBreaks_eq_zero (not_mem_of_blank blank)]
    rfl
  | @lineComment body rest unbroken _ =>
    have hmarks : '\n' ∉ '/' :: '/' :: body := by simpa using unbroken
    rw [lineBreaks_eq_zero hmarks]
    rfl
  | @blockComment body rest _ =>
    have hmarks : ('/' :: '*' :: body ++ ['*', '/']).count '\n' = body.count '\n' := by simp
    rw [lineBreaks, hmarks, lineBehind]
    show line + (commentBody ('/' :: '*' :: body ++ ['*', '/'])).count '\n' = _
    rw [commentBody_closed]
  | stray unspelled _ =>
    have hother := ne_lineBreak_of_stray unspelled
    rw [lineBreaks_eq_zero fun hmem => hother (List.mem_singleton.1 hmem).symm]
    rfl
  | openText _ => rfl
  | openComment _ => rfl

/-- The line counter shows for every piece of a text the line that the text comes to before it, and
in the end the line that the text ends on. -/
theorem track_cutAll (line : Nat) (text : List Char) :
    track line (cutAll text) = (place line (cutAll text), line + text.count '\n') := by
  induction text using text_induction generalizing line with
  | nil =>
    rw [cutAll]
    rfl
  | piece p rest hbegins ih =>
    rw [cutAll_of_begins hbegins, track, hbegins.lineBehind_eq, ih, place, List.count_append,
      ← Nat.add_assoc]
    rfl

/-! ## Placed pieces -/

/-- Pieces are placed no further down than the line breaks of all of them reach. -/
theorem line_place_bounds {line : Nat} {ps : List Piece} :
    ∀ x ∈ place line ps, line ≤ x.1 ∧ x.1 ≤ line + (ps.flatMap chars).count '\n' := by
  induction ps generalizing line with
  | nil => simp [place]
  | cons p ps ih =>
    intro x hx
    rw [List.flatMap_cons, List.count_append]
    rcases List.mem_cons.1 hx with rfl | hx
    · constructor
      · exact Nat.le_refl _
      · exact Nat.le_add_right _ _
    · have hmore := ih x hx
      unfold lineBreaks at hmore
      omega

/-- Placed pieces go by line. -/
theorem place_pairwise (line : Nat) (ps : List Piece) :
    (place line ps).Pairwise (·.1 ≤ ·.1) := by
  induction ps generalizing line with
  | nil => exact .nil
  | cons p ps ih =>
    refine .cons ?_ (ih _)
    intro x hx
    have hbelow := (line_place_bounds x hx).1
    exact Nat.le_trans (Nat.le_add_right line p.lineBreaks) hbelow

/-- A lexeme is on the line of its piece. -/
theorem line_of_lexeme? {x : Nat × Piece} {l : Lexeme} (h : lexeme? x = some l) :
    l.line = x.1 := by
  obtain ⟨line, kind, chars⟩ := x
  cases kind <;> cases h
  rfl

/-- An error is on the line of its piece. -/
theorem line_of_error? {x : Nat × Piece} {e : LexicalError} (h : error? x = some e) :
    e.line = x.1 := by
  obtain ⟨line, kind, chars⟩ := x
  cases kind <;> cases h <;> rfl

section Picked

variable {β : Type} {f : Nat × Piece → Option β} {lineOf : β → Nat}
  (hf : ∀ {x : Nat × Piece} {b : β}, f x = some b → lineOf b = x.1)

include hf

/-- Whatever is picked from placed pieces and stands on their lines is in the order of the
lines. -/
theorem picked_pairwise (line : Nat) (ps : List Piece) :
    ((place line ps).filterMap f).Pairwise fun a b => lineOf a ≤ lineOf b := by
  apply (place_pairwise line ps).filterMap f
  intro x y hxy a ha b hb
  rw [hf ha, hf hb]
  exact hxy

/-- Whatever is picked from the pieces of a text is on one of its lines. -/
theorem picked_line_bounds {text : List Char} {b : β}
    (hb : b ∈ (place 1 (cutAll text)).filterMap f) :
    1 ≤ lineOf b ∧ lineOf b ≤ 1 + text.count '\n' := by
  obtain ⟨x, hx, hxb⟩ := List.mem_filterMap.1 hb
  have hbounds := line_place_bounds x hx
  rw [flatMap_chars_cutAll] at hbounds
  rw [hf hxb]
  exact hbounds

end Picked

end Piece

/-! ## Scans -/

namespace Scan

/-- A scan picks its lexemes and errors from the placed pieces, and puts the end of the text on the
line that the text ends on. -/
theorem ofChars_eq (text : List Char) :
    ofChars text =
      { lexemes := (Piece.place 1 (Piece.cutAll text)).filterMap Piece.lexeme? ++
          [ending (1 + text.count '\n')]
        errors := (Piece.place 1 (Piece.cutAll text)).filterMap Piece.error? } := by
  rw [ofChars, Piece.track_cutAll]

/-- The lexemes of a scan, in terms of the placed pieces. -/
theorem lexemes_ofChars (text : List Char) :
    (ofChars text).lexemes = (Piece.place 1 (Piece.cutAll text)).filterMap Piece.lexeme? ++
      [ending (1 + text.count '\n')] := by
  rw [ofChars_eq]

/-- The errors of a scan, in terms of the placed pieces. -/
theorem errors_ofChars (text : List Char) :
    (ofChars text).errors = (Piece.place 1 (Piece.cutAll text)).filterMap Piece.error? := by
  rw [ofChars_eq]

/-- The errors of a scan go by line. -/
theorem errors_pairwise (text : String) :
    (ofText text).errors.Pairwise (·.line ≤ ·.line) := by
  rw [ofText, errors_ofChars]
  exact Piece.picked_pairwise Piece.line_of_error? 1 (Piece.cutAll text.toList)

/-- The errors of a scan are on lines of the text. -/
theorem line_error_bounds {text : String} {e : LexicalError} (h : e ∈ (ofText text).errors) :
    1 ≤ e.line ∧ e.line ≤ 1 + text.toList.count '\n' := by
  rw [ofText, errors_ofChars] at h
  exact Piece.picked_line_bounds Piece.line_of_error? h

/-- The lexemes of a scan are on lines of the text. -/
theorem line_lexeme_bounds {text : String} {l : Lexeme} (h : l ∈ (ofText text).lexemes) :
    1 ≤ l.line ∧ l.line ≤ 1 + text.toList.count '\n' := by
  rw [ofText, lexemes_ofChars] at h
  rcases List.mem_append.1 h with hplaced | hending
  · exact Piece.picked_line_bounds Piece.line_of_lexeme? hplaced
  · obtain rfl : l = ending (1 + text.toList.count '\n') := List.mem_singleton.1 hending
    exact ⟨Nat.le_add_right _ _, Nat.le_refl _⟩

/-- The lexemes of a scan go by line. -/
theorem lexemes_pairwise (text : String) :
    (ofText text).lexemes.Pairwise (·.line ≤ ·.line) := by
  rw [ofText, lexemes_ofChars]
  apply List.pairwise_append.2
  refine ⟨Piece.picked_pairwise Piece.line_of_lexeme? 1 (Piece.cutAll text.toList), ?_, ?_⟩
  · exact List.pairwise_singleton _ _
  · -- The end of the text stands on the last line.
    intro l hl k hk
    obtain rfl : k = ending (1 + text.toList.count '\n') := List.mem_singleton.1 hk
    exact (Piece.picked_line_bounds Piece.line_of_lexeme? hl).2

end Scan

end Watershed
