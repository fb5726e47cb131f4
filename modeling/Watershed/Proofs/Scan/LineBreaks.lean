import Watershed.Proofs.Scan.Rescanning

/-!
# Line breaks in a text

No token, blank or comment goes on over a line break, apart from text literals and block comments.
So a text in which both are closed can be scanned apart from what stands behind the next line break
(`scan_line_break`), and only the lines of what follows depend on it. For the same reason it makes
no difference whether lines end in `\n` or in `\r\n`, as long as the text has no literals that could
hold the `\r` (`scan_carriageReturns`).
-/

set_option autoImplicit false

namespace Watershed

/-- The lexeme some lines further down. -/
def Lexeme.lower (lines : Nat) (l : Lexeme) : Lexeme :=
  { l with line := l.line + lines }

/-- The error some lines further down. -/
def LexicalError.lower (lines : Nat) : LexicalError → LexicalError
  | strayCharacter c line => strayCharacter c (line + lines)
  | unclosedText line => unclosedText (line + lines)
  | unclosedComment line => unclosedComment (line + lines)

namespace Piece

/-! ## Pieces before a line break -/

/-- Whether a piece is closed where the text goes on. -/
def isClosed (p : Piece) : Bool :=
  match p.kind with
  | .openText | .openComment => false
  | _ => true

/-- A line break added at the end of a text is no part of the first word, since it is a separator.
-/
theorem takeWhile_append_lineBreak (rest more : List Char) :
    (rest ++ '\n' :: more).takeWhile (!isSeparator ·) = rest.takeWhile (!isSeparator ·) := by
  induction rest with
  | nil => rfl
  | cons c rest ih => simp only [List.cons_append, List.takeWhile_cons, ih]

/-- What holds of the line break and of the first character of a text, if any, holds of the first
character of the text with a line break added. -/
theorem head?_append_lineBreak {P : Char → Prop} {rest : List Char} (hrest : ∀ c ∈ rest.head?, P c)
    (hbreak : P '\n') (more : List Char) : ∀ c ∈ (rest ++ '\n' :: more).head?, P c := by
  cases rest with
  | nil => simpa using hbreak
  | cons d rest => exact hrest

/-- A text that begins with a closed piece still does so with a line break added. -/
theorem Begins.append_lineBreak {p : Piece} {rest : List Char} (h : Begins p rest)
    (hclosed : p.isClosed = true) (more : List Char) : Begins p (rest ++ '\n' :: more) := by
  cases h with
  | token spelled stops =>
    refine .token spelled ?_
    rwa [← stopsBefore_takeWhile_iff, takeWhile_append_lineBreak, stopsBefore_takeWhile_iff]
  | blanks nonempty blank stops =>
    exact .blanks nonempty blank (head?_append_lineBreak stops rfl more)
  | lineComment unbroken stops =>
    exact .lineComment unbroken (head?_append_lineBreak stops rfl more)
  | blockComment unclosed => exact .blockComment unclosed
  | stray unspelled unblank => exact .stray unspelled unblank
  | openText _ => cases hclosed
  | openComment _ => cases hclosed

/-- The piece of a line break. -/
def lineBreak : Piece :=
  ⟨.token .lineBreak, ['\n']⟩

/-- A text whose first character is a line break begins with the piece of a line break. -/
theorem begins_lineBreak (rest : List Char) : Begins lineBreak rest :=
  .token .lineBreak trivial

/-- A text whose pieces are all closed is cut apart from what stands behind the next line break. -/
theorem cutAll_append_lineBreak {text : List Char} (hclosed : ∀ p ∈ cutAll text, p.isClosed = true)
    (more : List Char) :
    cutAll (text ++ '\n' :: more) = cutAll text ++ lineBreak :: cutAll more := by
  induction text using text_induction with
  | nil =>
    rw [cutAll]
    exact cutAll_of_begins (begins_lineBreak more)
  | piece p rest hbegins ih =>
    rw [cutAll_of_begins hbegins] at hclosed ⊢
    obtain ⟨hp, hrest⟩ := List.forall_mem_cons.1 hclosed
    rw [List.append_assoc, cutAll_of_begins (hbegins.append_lineBreak hp more), ih hrest,
      List.cons_append]

/-! ## Lines further down -/

/-- Pieces are placed behind other ones on the lines that these come to. -/
theorem place_append (line : Nat) (ps qs : List Piece) :
    place line (ps ++ qs) = place line ps ++ place (line + (ps.flatMap chars).count '\n') qs := by
  induction ps generalizing line with
  | nil => rfl
  | cons p ps ih =>
    rw [List.cons_append, place, place, ih, List.flatMap_cons, List.count_append, lineBreaks,
      List.cons_append, Nat.add_assoc]

/-- Pieces placed some lines further down are the same pieces, lower by as many lines. -/
theorem place_add (line lines : Nat) (ps : List Piece) :
    place (line + lines) ps = (place line ps).map fun x => (x.1 + lines, x.2) := by
  induction ps generalizing line with
  | nil => rfl
  | cons p ps ih => rw [place, place, Nat.add_right_comm, ih, List.map_cons]

/-- Whatever is picked from pieces is picked further down if the pieces stand further down. -/
theorem filterMap_place_add {β : Type} {f : Nat × Piece → Option β} {lower : Nat → β → β}
    (hf : ∀ line lines p, f (line + lines, p) = (f (line, p)).map (lower lines))
    (line lines : Nat) (ps : List Piece) :
    (place (line + lines) ps).filterMap f = ((place line ps).filterMap f).map (lower lines) := by
  rw [place_add, List.filterMap_map, List.map_filterMap]
  congr 1
  funext x
  exact hf x.1 lines x.2

/-- A piece some lines further down gives its lexeme lower by as many lines. -/
theorem lexeme?_add (line lines : Nat) (p : Piece) :
    lexeme? (line + lines, p) = (lexeme? (line, p)).map (Lexeme.lower lines) := by
  obtain ⟨kind, chars⟩ := p
  cases kind <;> rfl

/-- A piece some lines further down gives its error lower by as many lines. -/
theorem error?_add (line lines : Nat) (p : Piece) :
    error? (line + lines, p) = (error? (line, p)).map (LexicalError.lower lines) := by
  obtain ⟨kind, chars⟩ := p
  cases kind <;> rfl

/-- A text that gives no error of an unclosed stretch has closed pieces only. -/
theorem isClosed_of_errors {line : Nat} {ps : List Piece}
    (h : ∀ n, .unclosedText n ∉ (place line ps).filterMap error? ∧
      .unclosedComment n ∉ (place line ps).filterMap error?) :
    ∀ p ∈ ps, p.isClosed = true := by
  induction ps generalizing line with
  | nil => simp
  | cons p ps ih =>
    simp only [filterMap_place_cons, List.mem_append, not_or] at h
    refine List.forall_mem_cons.2 ⟨?_, ih fun n => ⟨(h n).1.2, (h n).2.2⟩⟩
    have htext := (h line).1.1
    have hcomment := (h line).2.1
    obtain ⟨kind, chars⟩ := p
    cases kind with
    | openText => simp [error?] at htext
    | openComment => simp [error?] at hcomment
    | _ => rfl

end Piece

/-- If a text leaves no literal and no comment open, then scanning it together with what stands
behind a line break gives what both give apart, and the line break between. The second one stands as
many lines further down as the first one has. -/
theorem scan_line_break (a b : String)
    (hclosed : ∀ line, .unclosedText line ∉ (Scan.ofText a).errors ∧
      .unclosedComment line ∉ (Scan.ofText a).errors) :
    (Scan.ofText (a ++ "\n" ++ b)).lexemes =
        (Scan.ofText a).body ++ ⟨.lineBreak, "\n", 1 + a.toList.count '\n'⟩ ::
          (Scan.ofText b).lexemes.map (Lexeme.lower (1 + a.toList.count '\n')) ∧
      (Scan.ofText (a ++ "\n" ++ b)).errors = (Scan.ofText a).errors ++
        (Scan.ofText b).errors.map (LexicalError.lower (1 + a.toList.count '\n')) := by
  have htext : (a ++ "\n" ++ b).toList = a.toList ++ '\n' :: b.toList := by
    simp [String.toList_append]
  have hcut : Piece.cutAll (a ++ "\n" ++ b).toList =
      Piece.cutAll a.toList ++ Piece.lineBreak :: Piece.cutAll b.toList := by
    rw [Scan.ofText, Scan.errors_ofChars] at hclosed
    rw [htext]
    exact Piece.cutAll_append_lineBreak (Piece.isClosed_of_errors hclosed) b.toList
  have hplace : Piece.place 1 (Piece.cutAll (a ++ "\n" ++ b).toList) =
      Piece.place 1 (Piece.cutAll a.toList) ++ (1 + a.toList.count '\n', Piece.lineBreak) ::
        Piece.place (1 + (1 + a.toList.count '\n')) (Piece.cutAll b.toList) := by
    rw [hcut, Piece.place_append, Piece.flatMap_chars_cutAll, Nat.add_comm 1 (1 + _)]
    rfl
  have hending : Scan.ending (1 + (a ++ "\n" ++ b).toList.count '\n') =
      (Scan.ending (1 + b.toList.count '\n')).lower (1 + a.toList.count '\n') := by
    rw [htext]
    simp only [Scan.ending, Lexeme.lower, List.count_append, List.count_cons_self]
    congr 1
    omega
  constructor
  · rw [Scan.lexemes_ofText, Scan.lexemes_ofText b, Scan.body_ofText, Scan.body_ofText,
      Scan.body_ofText, hplace, List.filterMap_append, hending, List.map_append,
      List.append_assoc, ← Piece.filterMap_place_add Piece.lexeme?_add]
    rfl
  · rw [Scan.ofText, Scan.ofText, Scan.ofText, Scan.errors_ofChars, Scan.errors_ofChars,
      Scan.errors_ofChars, hplace, List.filterMap_append,
      ← Piece.filterMap_place_add Piece.error?_add]
    rfl

/-- The point and the slash at the end of the first text stay what they are, and the literal in the
second one reaches over two lines. -/
theorem scan_line_break_literal :
    (∀ line, .unclosedText line ∉ (Scan.ofText "var x /* \n */ = 1./").errors ∧
      .unclosedComment line ∉ (Scan.ofText "var x /* \n */ = 1./").errors) ∧
    (Scan.ofText ("var x /* \n */ = 1./" ++ "\n" ++ "\"*\n\" ?")).errors =
      [.strayCharacter '.' 2, .strayCharacter '?' 4] := by
  have herrors : (Scan.ofText "var x /* \n */ = 1./").errors = [.strayCharacter '.' 2] := by
    decide +kernel
  have hclosed : ∀ line, .unclosedText line ∉ (Scan.ofText "var x /* \n */ = 1./").errors ∧
      .unclosedComment line ∉ (Scan.ofText "var x /* \n */ = 1./").errors := by
    intro line
    simp [herrors]
  have hmore : (Scan.ofText "\"*\n\" ?").errors = [.strayCharacter '?' 2] := by
    decide +kernel
  refine ⟨hclosed, ?_⟩
  rw [(scan_line_break _ _ hclosed).2, herrors, hmore]
  decide

/-! ## Lines that end in a carriage return -/

/-- The text with a carriage return before every line break. -/
def withCarriageReturns (text : List Char) : List Char :=
  text.flatMap fun c => if c = '\n' then ['\r', '\n'] else [c]

/-- Carriage returns are put into two texts in a row one after the other. -/
theorem withCarriageReturns_append (text more : List Char) :
    withCarriageReturns (text ++ more) = withCarriageReturns text ++ withCarriageReturns more :=
  List.flatMap_append

/-- A line break gets a carriage return in front. -/
theorem withCarriageReturns_break (text : List Char) :
    withCarriageReturns ('\n' :: text) = '\r' :: '\n' :: withCarriageReturns text :=
  rfl

/-- Other characters than the line break stay as they are. -/
theorem withCarriageReturns_cons {c : Char} (hc : c ≠ '\n') (text : List Char) :
    withCarriageReturns (c :: text) = c :: withCarriageReturns text := by
  simp [withCarriageReturns, hc]

/-- A text without line breaks stays as it is. -/
theorem withCarriageReturns_of_unbroken {text : List Char} (h : '\n' ∉ text) :
    withCarriageReturns text = text := by
  induction text with
  | nil => rfl
  | cons c text ih =>
    obtain ⟨hc, hmore⟩ : '\n' ≠ c ∧ '\n' ∉ text := by simpa using h
    rw [withCarriageReturns_cons (Ne.symm hc), ih hmore]

/-- No line break is added or lost. -/
theorem count_withCarriageReturns (text : List Char) :
    (withCarriageReturns text).count '\n' = text.count '\n' := by
  induction text with
  | nil => rfl
  | cons c text ih =>
    by_cases hc : c = '\n'
    · subst hc
      simp [withCarriageReturns_break, ih]
    · simp [withCarriageReturns_cons hc, hc, ih]

/-- The first word of a text stays as it is, since the carriage return is a separator. -/
theorem takeWhile_withCarriageReturns (text : List Char) :
    (withCarriageReturns text).takeWhile (!Piece.isSeparator ·) =
      text.takeWhile (!Piece.isSeparator ·) := by
  induction text with
  | nil => rfl
  | cons c text ih =>
    by_cases hc : c = '\n'
    · subst hc
      rfl
    · simp only [withCarriageReturns_cons hc, List.takeWhile_cons, ih]

/-- No closing mark of a comment comes about. -/
theorem close_infix_of_withCarriageReturns {text : List Char}
    (h : ['*', '/'] <:+: withCarriageReturns text) : ['*', '/'] <:+: text := by
  induction text with
  | nil => exact h
  | cons c text ih =>
    by_cases hc : c = '\n'
    · -- Neither character before the break is part of a closing mark.
      subst hc
      rw [withCarriageReturns_break, List.infix_cons_iff, List.infix_cons_iff] at h
      simp only [List.cons_prefix_cons, Char.reduceEq, false_and, false_or] at h
      exact (ih h).trans (List.suffix_cons _ _).isInfix
    · rw [withCarriageReturns_cons hc, List.infix_cons_iff] at h
      rcases h with hstart | hmore
      · obtain ⟨rfl, hslash⟩ := List.cons_prefix_cons.1 hstart
        cases text with
        | nil => cases List.eq_nil_of_prefix_nil hslash
        | cons d text =>
          by_cases hd : d = '\n'
          · subst hd
            simp [withCarriageReturns_break] at hslash
          · obtain rfl : '/' = d := by simpa [withCarriageReturns_cons hd] using hslash
            exact ⟨[], text, rfl⟩
      · exact (ih hmore).trans (List.suffix_cons _ _).isInfix

namespace Piece

/-- What a text gives if it begins on a line. -/
def gives (text : List Char) (line : Nat) : List Lexeme × List LexicalError :=
  ((place line (cutAll text)).filterMap lexeme?, (place line (cutAll text)).filterMap error?)

/-- A text that begins with a piece gives what the piece gives, and then what the rest gives from
the line behind the piece. -/
theorem gives_of_begins {p : Piece} {rest : List Char} (h : Begins p rest) (line : Nat) :
    gives (p.chars ++ rest) line =
      ((lexeme? (line, p)).toList ++ (gives rest (line + p.lineBreaks)).1,
        (error? (line, p)).toList ++ (gives rest (line + p.lineBreaks)).2) := by
  rw [gives, cutAll_of_begins h, filterMap_place_cons, filterMap_place_cons]
  rfl

/-- A run of blanks gives nothing. -/
theorem gives_run {chars rest : List Char} (hblank : ∀ c ∈ chars, isBlank c = true)
    (hstops : ∀ c ∈ rest.head?, isBlank c = false) : gives (chars ++ rest) = gives rest := by
  funext line
  by_cases hempty : chars = []
  · rw [hempty, List.nil_append]
  · have hbegins : Begins ⟨.blank, chars⟩ rest := .blanks hempty hblank hstops
    have hline : lineBreaks ⟨.blank, chars⟩ = 0 := lineBreaks_eq_zero (not_mem_of_blank hblank)
    rw [gives_of_begins hbegins, hline]
    rfl

/-- Blanks give nothing, also if more of them follow. -/
theorem gives_blanks {chars : List Char} (hblank : ∀ c ∈ chars, isBlank c = true)
    (text : List Char) : gives (chars ++ text) = gives text := by
  have hsplit : text.takeWhile isBlank ++ text.dropWhile isBlank = text :=
    List.takeWhile_append_dropWhile
  have hmore := forall_mem_takeWhile isBlank text
  have hstops := head?_dropWhile_eq_false isBlank text
  have hall := gives_run (List.forall_mem_append.2 ⟨hblank, hmore⟩) hstops
  rwa [List.append_assoc, hsplit, ← gives_run hmore hstops, hsplit] at hall

/-- A carriage return in front of a text gives nothing. -/
theorem gives_carriageReturn (text : List Char) : gives ('\r' :: text) = gives text := by
  have hblank : ∀ c ∈ ['\r'], isBlank c = true := List.all_eq_true.1 rfl
  exact gives_blanks hblank text

/-- Two pieces that give the same may stand in each other's place, if what follows gives the same.
-/
theorem gives_congr {p q : Piece} {rest rest' : List Char} (hp : Begins p rest)
    (hq : Begins q rest') (hlexeme : ∀ line, lexeme? (line, p) = lexeme? (line, q))
    (herror : ∀ line, error? (line, p) = error? (line, q)) (hlines : p.lineBreaks = q.lineBreaks)
    (hrest : gives rest = gives rest') : gives (p.chars ++ rest) = gives (q.chars ++ rest') := by
  funext line
  rw [gives_of_begins hp, gives_of_begins hq, hlexeme, herror, hlines, hrest]

/-- Apart from text literals, the line break is the only token that holds one. -/
theorem spells_of_mem_break {t : Token} {chars : List Char} (h : Spells t chars)
    (hbreak : '\n' ∈ chars) (hquote : '"' ∉ chars) : t = .lineBreak ∧ chars = ['\n'] := by
  cases h with
  | whole nonempty digits => exact absurd (digits _ hbreak) (by decide)
  | @fraction ds fs nonempty digits =>
    have hdigit : '\n' ∈ ds ++ fs := by simpa using hbreak
    exact absurd (digits _ hdigit) (by decide)
  | text unquoted => simp at hquote
  | truth => simp at hbreak
  | falsity => simp at hbreak
  | keyword word => cases word <;> simp [Keyword.spelling] at hbreak
  | name starts continues free untrue =>
    rcases List.mem_cons.1 hbreak with rfl | hmore
    · cases starts
    · exact absurd (continues _ hmore) (by decide)
  | sign s => cases s <;> simp [Sign.spelling] at hbreak
  | lineBreak => exact ⟨rfl, rfl⟩

section CarriageReturns

variable {rest : List Char} (hrest : gives (withCarriageReturns rest) = gives rest)

include hrest

/-- A piece that stays what it is may hold carriage returns. -/
theorem gives_same_kind {p : Piece} (hp : Begins p rest)
    (hq : Begins ⟨p.kind, withCarriageReturns p.chars⟩ (withCarriageReturns rest))
    (hlexeme : ∀ line, lexeme? (line, ⟨p.kind, withCarriageReturns p.chars⟩) = lexeme? (line, p)) :
    gives (withCarriageReturns (p.chars ++ rest)) = gives (p.chars ++ rest) := by
  have hlines : lineBreaks ⟨p.kind, withCarriageReturns p.chars⟩ = p.lineBreaks :=
    count_withCarriageReturns p.chars
  rw [withCarriageReturns_append]
  exact gives_congr hq hp hlexeme (fun _ => rfl) hlines hrest

/-- A line break gives the same with a carriage return in front, if the rest gives the same with
them. -/
theorem gives_break :
    gives (withCarriageReturns ('\n' :: rest)) = gives ('\n' :: rest) :=
  calc gives (withCarriageReturns ('\n' :: rest))
    _ = gives ('\r' :: '\n' :: withCarriageReturns rest) := rfl
    _ = gives ('\n' :: withCarriageReturns rest) := gives_carriageReturn _
    _ = gives ('\n' :: rest) := gives_congr (begins_lineBreak _) (begins_lineBreak _)
        (fun _ => rfl) (fun _ => rfl) rfl hrest

/-- A token that is no string gives the same, if the rest does. -/
theorem gives_token {t : Token} {chars : List Char} (hspelled : Spells t chars)
    (hstops : t.StopsBefore chars rest) (hquote : '"' ∉ chars) :
    gives (withCarriageReturns (chars ++ rest)) = gives (chars ++ rest) := by
  by_cases hbreak : '\n' ∈ chars
  · obtain ⟨rfl, rfl⟩ := spells_of_mem_break hspelled hbreak hquote
    exact gives_break hrest
  · have hchars := withCarriageReturns_of_unbroken hbreak
    have hstops' : t.StopsBefore chars (withCarriageReturns rest) := by
      rwa [← stopsBefore_takeWhile_iff, takeWhile_withCarriageReturns, stopsBefore_takeWhile_iff]
    refine gives_same_kind hrest (.token hspelled hstops) ?_ ?_
    · rw [hchars]
      exact .token hspelled hstops'
    · intro line
      rw [hchars]

/-- A line comment in front of a text gives the same, if the rest does: the carriage return behind it
becomes a part of it. -/
theorem gives_lineComment {body : List Char} (hbody : '\n' ∉ body)
    (hstops : ∀ c ∈ rest.head?, c = '\n') :
    gives (withCarriageReturns ('/' :: '/' :: body ++ rest)) =
      gives ('/' :: '/' :: body ++ rest) := by
  have hchars : withCarriageReturns ('/' :: '/' :: body) = '/' :: '/' :: body :=
    withCarriageReturns_of_unbroken (by simpa using hbody)
  rw [withCarriageReturns_append, hchars]
  cases rest with
  | nil => rfl
  | cons c more =>
    obtain rfl := hstops c rfl
    -- The carriage return becomes the last character of the comment.
    have hlonger : '\n' ∉ body ++ ['\r'] := by simpa using hbody
    have hbegins : Begins ⟨.lineComment, '/' :: '/' :: (body ++ ['\r'])⟩
        ('\n' :: withCarriageReturns more) := .lineComment hlonger (by simp)
    have hlines : lineBreaks ⟨.lineComment, '/' :: '/' :: (body ++ ['\r'])⟩ =
        lineBreaks ⟨.lineComment, '/' :: '/' :: body⟩ := by
      simp [lineBreaks]
    have hmore : gives ('\n' :: withCarriageReturns more) = gives ('\n' :: more) :=
      (gives_carriageReturn _).symm.trans hrest
    have hsame := gives_congr hbegins (.lineComment hbody hstops) (fun _ => rfl) (fun _ => rfl)
      hlines hmore
    rw [← hsame, withCarriageReturns_break]
    simp

end CarriageReturns

/-- A text without quotes gives the same with carriage returns, by induction on its pieces. -/
theorem gives_withCarriageReturns {text : List Char} (hquote : '"' ∉ text) :
    gives (withCarriageReturns text) = gives text := by
  induction text using text_induction with
  | nil => rfl
  | piece p rest hbegins ih =>
    obtain ⟨hp, hmore⟩ := not_or.1 (mt List.mem_append.2 hquote)
    have hrest := ih hmore
    cases hbegins with
    | token spelled stops => exact gives_token hrest spelled stops hp
    | blanks nonempty blank stops =>
      rw [withCarriageReturns_append, withCarriageReturns_of_unbroken (not_mem_of_blank blank),
        gives_blanks blank, gives_blanks blank, hrest]
    | lineComment unbroken stops => exact gives_lineComment hrest unbroken stops
    | @blockComment body _ unclosed =>
      have hchars : withCarriageReturns ('/' :: '*' :: body ++ ['*', '/']) =
          '/' :: '*' :: withCarriageReturns body ++ ['*', '/'] := by
        rw [withCarriageReturns_append]
        rfl
      refine gives_same_kind hrest (.blockComment unclosed) ?_ (fun _ => rfl)
      rw [hchars]
      exact .blockComment (mt close_infix_of_withCarriageReturns unclosed)
    | @stray c _ unspelled unblank =>
      have hc : c ≠ '\n' := fun h => unspelled (.inr (.inr (.inl h)))
      refine gives_same_kind hrest (.stray unspelled unblank) ?_ (fun _ => rfl)
      rw [withCarriageReturns_of_unbroken (by simpa using Ne.symm hc)]
      exact .stray unspelled unblank
    | openText unquoted => simp at hp
    | openComment unclosed =>
      refine gives_same_kind hrest (.openComment unclosed) ?_ (fun _ => rfl)
      exact .openComment (mt close_infix_of_withCarriageReturns unclosed)

end Piece

/-- A text without literals is scanned alike, whether its lines end in `\n` or in `\r\n`. -/
theorem scan_carriageReturns (text : String) (hquote : '"' ∉ text.toList) :
    Scan.ofText (String.ofList (withCarriageReturns text.toList)) = Scan.ofText text := by
  have hgives := congrFun (Piece.gives_withCarriageReturns hquote) 1
  obtain ⟨hlexemes, herrors⟩ := Prod.mk.inj hgives
  rw [Scan.ofText, Scan.ofText, String.toList_ofList, Scan.ofChars_eq, Scan.ofChars_eq, hlexemes,
    herrors, count_withCarriageReturns]

/-- The carriage returns stand behind a point, at the end of a comment, between a star and a slash,
and alone on a line. -/
theorem scan_carriageReturns_comments :
    '"' ∉ "1.\n// a\n/* *\n/ */ x\n\n/*".toList ∧
      Scan.ofText "1.\r\n// a\r\n/* *\r\n/ */ x\r\n\r\n/*" =
        Scan.ofText "1.\n// a\n/* *\n/ */ x\n\n/*" :=
  ⟨by decide, scan_carriageReturns "1.\n// a\n/* *\n/ */ x\n\n/*" (by decide)⟩

end Watershed
