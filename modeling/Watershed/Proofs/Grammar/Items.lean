import Watershed.Grammar.Passage
import Watershed.Proofs.Grammar.Derivation

/-!
# The grammar of programs

A program is a sequence of items: terminators, blocks and simple statements. A block needs nothing
after it, while a simple statement is directly followed by a terminator or is the last of its
items. The reading of a passage records no error exactly if the lexemes before its end are items,
and then it gives their statements. So recovery never hides a program that does not fit the
grammar, and every list of lexemes has at most one tree.
-/

set_option autoImplicit false

namespace Watershed.Grammar

/-! ## The grammar -/

/-- An optional initial value: an equals sign and an expression, or nothing. -/
inductive Initial : List Lexeme → Option Expr → Prop
  | none : Initial [] none
  | some {l : Lexeme} {p : List Lexeme} {e : Expr} (equals : l.token = .sign .equals)
      (value : Derives (some .disjunction) p e) : Initial (l :: p) (some e)

/-- The sources of a combined river after the first: a plus sign and a name each. -/
inductive FurtherSources : List Lexeme → List String → Prop
  | nil : FurtherSources [] []
  | cons {l m : Lexeme} {p : List Lexeme} {n : String} {ns : List String}
      (plus : l.token = .sign .plus) (source : m.token = .name n) (more : FurtherSources p ns) :
      FurtherSources (l :: m :: p) (n :: ns)

/-- How a dam is set, with the line of the word that says so. -/
inductive Mode : List Lexeme → DamMode → Nat → Prop
  | opened {l : Lexeme} (word : l.token = .keyword .opening) : Mode [l] .opened l.line
  | closed {l : Lexeme} (word : l.token = .keyword .closing) : Mode [l] .closed l.line
  | adjusted {l : Lexeme} {p : List Lexeme} {e : Expr} (word : l.token = .keyword .adjust)
      (factor : Derives (some .disjunction) p e) : Mode (l :: p) (.adjusted e) l.line

/-- The lexemes that are a simple statement, and the statement. It stands on the line of its first
lexeme, but the setting of a dam on the line of its mode. -/
inductive Simple : List Lexeme → Statement → Prop
  | river {k n : Lexeme} {p : List Lexeme} {x : String} {rate : Option Expr}
      (word : k.token = .keyword .river) (river : n.token = .name x) (initial : Initial p rate) :
      Simple (k :: n :: p) (.river x rate k.line)
  | output {k n : Lexeme} {x : String} (word : k.token = .keyword .output)
      (river : n.token = .name x) : Simple [k, n] (.output x k.line)
  | combine {k n q m : Lexeme} {p : List Lexeme} {x y : String} {ys : List String}
      (word : k.token = .keyword .combine) (river : n.token = .name x)
      (equals : q.token = .sign .equals) (source : m.token = .name y)
      (further : FurtherSources p ys) :
      Simple (k :: n :: q :: m :: p) (.combine x (y :: ys) k.line)
  | flow {k m a n : Lexeme} {x y : String} (word : k.token = .keyword .flow)
      (source : m.token = .name x) (arrow : a.token = .sign .arrow) (target : n.token = .name y) :
      Simple [k, m, a, n] (.flow x y k.line)
  | dam {k n : Lexeme} {p : List Lexeme} {x : String} {mode : DamMode} {line : Nat}
      (word : k.token = .keyword .dam) (river : n.token = .name x) (setting : Mode p mode line) :
      Simple (k :: n :: p) (.dam x mode line)
  | var {k n : Lexeme} {p : List Lexeme} {x : String} {value : Option Expr}
      (word : k.token = .keyword .var) (name : n.token = .name x) (initial : Initial p value) :
      Simple (k :: n :: p) (.var x value k.line)
  | print {k : Lexeme} {p : List Lexeme} {e : Expr} (word : k.token = .keyword .print)
      (shown : Derives (some .disjunction) p e) : Simple (k :: p) (.print e k.line)
  | expr {l : Lexeme} {p : List Lexeme} {e : Expr} (h : Derives (some .disjunction) (l :: p) e) :
      Simple (l :: p) (.expr e l.line)

/-- The lexemes that are a sequence of items, and the statements among the items. -/
inductive Items : List Lexeme → List Statement → Prop
  | nil : Items [] []
  | terminator {l : Lexeme} {ts : List Lexeme} {ss : List Statement}
      (h : l.token = .lineBreak ∨ l.token = .sign .semicolon) (more : Items ts ss) :
      Items (l :: ts) ss
  | block {l m : Lexeme} {body ts : List Lexeme} {inner ss : List Statement}
      (opening : l.token = .sign .leftBrace) (inside : Items body inner)
      (closing : m.token = .sign .rightBrace) (more : Items ts ss) :
      Items (l :: body ++ m :: ts) (.block inner l.line :: ss)
  | last {p : List Lexeme} {s : Statement} (statement : Simple p s) : Items p [s]
  | simple {p ts : List Lexeme} {s : Statement} {l : Lexeme} {ss : List Statement}
      (statement : Simple p s) (h : l.token = .lineBreak ∨ l.token = .sign .semicolon)
      (more : Items ts ss) : Items (p ++ l :: ts) (s :: ss)

/-! ## The first lexemes of phrases -/

/-- The terminators are the line break and the semicolon. -/
theorem isTerminator_iff {token : Token} :
    token.isTerminator = true ↔ token = .lineBreak ∨ token = .sign .semicolon := by
  fun_cases Token.isTerminator token <;> simp_all

/-- Whether an expression can begin with a token. -/
def beginsExpression : Token → Bool
  | .number _ | .text _ | .bool _ | .name _ | .keyword .nil => true
  | .sign .minus | .sign .bang | .sign .leftParen => true
  | _ => false

/-- Every expression has a first lexeme, and it is one that can begin an expression. -/
theorem Derives.begins {tier : Option Tier} {p : List Lexeme} {e : Expr} (h : Derives tier p e) :
    ∃ l ls, p = l :: ls ∧ beginsExpression l.token = true := by
  induction h with
  | tighter _ ih => exact ih
  | chain _ _ _ ih =>
    obtain ⟨l, ls, rfl, hl⟩ := ih
    exact ⟨l, _, rfl, hl⟩
  | @unary l op p e hop =>
    refine ⟨l, p, rfl, ?_⟩
    simp only [unaryOperators, List.mem_cons, Prod.mk.injEq, List.not_mem_nil, or_false] at hop
    rcases hop with ⟨h, -⟩ | ⟨h, -⟩ <;> rw [h] <;> rfl
  | group hopen => exact ⟨_, _, rfl, by rw [hopen]; rfl⟩
  | number h => exact ⟨_, _, rfl, by rw [h]; rfl⟩
  | text h => exact ⟨_, _, rfl, by rw [h]; rfl⟩
  | bool h => exact ⟨_, _, rfl, by rw [h]; rfl⟩
  | nil h => exact ⟨_, _, rfl, by rw [h]; rfl⟩
  | name h => exact ⟨_, _, rfl, by rw [h]; rfl⟩

/-- Whether a simple statement can begin with a token. -/
def beginsSimple (token : Token) : Bool :=
  token.startsStatement || beginsExpression token

/-- Every simple statement has a first lexeme, and it is one that can begin a simple statement. -/
theorem Simple.begins {p : List Lexeme} {s : Statement} (h : Simple p s) :
    ∃ l ls, p = l :: ls ∧ beginsSimple l.token = true := by
  cases h with
  | expr h =>
    obtain ⟨_, _, heq, hl⟩ := h.begins
    cases heq
    exact ⟨_, _, rfl, by rw [beginsSimple, hl, Bool.or_true]⟩
  | river word => exact ⟨_, _, rfl, by rw [word]; rfl⟩
  | output word => exact ⟨_, _, rfl, by rw [word]; rfl⟩
  | combine word => exact ⟨_, _, rfl, by rw [word]; rfl⟩
  | flow word => exact ⟨_, _, rfl, by rw [word]; rfl⟩
  | dam word => exact ⟨_, _, rfl, by rw [word]; rfl⟩
  | var word => exact ⟨_, _, rfl, by rw [word]; rfl⟩
  | print word => exact ⟨_, _, rfl, by rw [word]; rfl⟩

/-- What can begin a simple statement is no terminator, opens no block and ends no passage. -/
theorem beginsSimple_facts {token : Token} (h : beginsSimple token = true) :
    token.isTerminator = false ∧ token ≠ .sign .leftBrace ∧ ∀ b, endsPassage b token = false := by
  refine ⟨?_, ?_, fun b => ?_⟩
  · fun_cases Token.isTerminator token with
    | case1 => cases h
    | case2 => cases h
    | case3 => rfl
  · rintro rfl
    cases h
  · fun_cases endsPassage b token with
    | case1 => cases h
    | case2 => cases h
    | case3 => rfl

/-! ## Readings of simple statements are derivations -/

/-- What is read as an initial value is one. -/
theorem initial_of_read {ts rest : List Lexeme} {v : Option Expr}
    (h : initial ts = ⟨.ok v, rest⟩) : ∃ p, ts = p ++ rest ∧ Initial p v := by
  unfold initial at h
  split at h
  · cases h
    exact ⟨[], rfl, .none⟩
  · rename_i l ls
    split at h
    · rename_i hequals
      obtain ⟨e, hread, rfl⟩ := Reading.map_eq_ok_iff.1 h
      obtain ⟨p, rfl, hp, -⟩ := expression_eq_ok_iff.1 hread
      exact ⟨l :: p, rfl, .some hequals hp⟩
    · cases h
      exact ⟨[], rfl, .none⟩

/-- What is read as further sources are some. -/
theorem furtherSources_of_read {ts rest : List Lexeme} {ns : List String}
    (h : furtherSources ts = ⟨.ok ns, rest⟩) : ∃ p, ts = p ++ rest ∧ FurtherSources p ns := by
  fun_induction furtherSources ts generalizing ns with
  | case1 =>
    cases h
    exact ⟨[], rfl, .nil⟩
  | case2 => cases h
  | case3 =>
    cases h
    exact ⟨[], rfl, .nil⟩
  | case4 l m ls hplus n hn ih =>
    obtain ⟨more, hread, rfl⟩ := Reading.map_eq_ok_iff.1 h
    obtain ⟨p, rfl, hp⟩ := ih hread
    exact ⟨l :: m :: p, rfl, .cons hplus hn hp⟩
  | case5 => cases h
  | case6 =>
    cases h
    exact ⟨[], rfl, .nil⟩

/-- What is read as the mode of a dam is one. -/
theorem mode_of_read {ts rest : List Lexeme} {mode : DamMode} {line : Nat}
    (h : damMode ts = ⟨.ok (mode, line), rest⟩) : ∃ p, ts = p ++ rest ∧ Mode p mode line := by
  unfold damMode at h
  split at h
  · cases h
  · rename_i l ls
    split at h
    · rename_i hword
      cases h
      exact ⟨[l], rfl, .opened hword⟩
    · rename_i hword
      cases h
      exact ⟨[l], rfl, .closed hword⟩
    · rename_i hword
      obtain ⟨e, hread, heq⟩ := Reading.map_eq_ok_iff.1 h
      cases heq
      obtain ⟨p, rfl, hp, -⟩ := expression_eq_ok_iff.1 hread
      exact ⟨l :: p, rfl, .adjusted hword hp⟩
    · cases h

/-- What is read behind the keyword of a statement is a simple statement, together with the keyword.
-/
theorem simple_of_read_after {word : Keyword} {l : Lexeme} {ls rest : List Lexeme} {s : Statement}
    {p : Phrase Statement} (hword : l.token = .keyword word)
    (hp : statementAfter? word l.line = some p) (h : p ls = ⟨.ok s, rest⟩) :
    ∃ q, l :: ls = q ++ rest ∧ Simple q s := by
  cases word with
  | river =>
    cases hp
    obtain ⟨n, x, _, hn, rfl, hrate⟩ := Phrase.name_bind_eq_ok_iff.1 h
    obtain ⟨rate, _, hinitial, hend⟩ := Phrase.bind_eq_ok_iff.1 hrate
    obtain ⟨q, rfl, hq⟩ := initial_of_read hinitial
    obtain ⟨rfl, rfl⟩ := Phrase.pure_eq_ok_iff.1 hend
    exact ⟨l :: n :: q, rfl, .river hword hn hq⟩
  | output =>
    cases hp
    obtain ⟨n, x, _, hn, rfl, hend⟩ := Phrase.name_bind_eq_ok_iff.1 h
    obtain ⟨rfl, rfl⟩ := Phrase.pure_eq_ok_iff.1 hend
    exact ⟨[l, n], rfl, .output hword hn⟩
  | combine =>
    cases hp
    obtain ⟨n, x, _, hn, rfl, hsum⟩ := Phrase.name_bind_eq_ok_iff.1 h
    obtain ⟨a, _, ha, rfl, hsources⟩ := Phrase.sign_bind_eq_ok_iff.1 hsum
    obtain ⟨m, y, _, hm, rfl, hmore⟩ := Phrase.name_bind_eq_ok_iff.1 hsources
    obtain ⟨ys, _, hfurther, hend⟩ := Phrase.bind_eq_ok_iff.1 hmore
    obtain ⟨q, rfl, hq⟩ := furtherSources_of_read hfurther
    obtain ⟨rfl, rfl⟩ := Phrase.pure_eq_ok_iff.1 hend
    exact ⟨l :: n :: a :: m :: q, rfl, .combine hword hn ha hm hq⟩
  | flow =>
    cases hp
    obtain ⟨m, x, _, hm, rfl, harrow⟩ := Phrase.name_bind_eq_ok_iff.1 h
    obtain ⟨a, _, ha, rfl, htarget⟩ := Phrase.sign_bind_eq_ok_iff.1 harrow
    obtain ⟨n, y, _, hn, rfl, hend⟩ := Phrase.name_bind_eq_ok_iff.1 htarget
    obtain ⟨rfl, rfl⟩ := Phrase.pure_eq_ok_iff.1 hend
    exact ⟨[l, m, a, n], rfl, .flow hword hm ha hn⟩
  | dam =>
    cases hp
    obtain ⟨n, x, _, hn, rfl, hsetting⟩ := Phrase.name_bind_eq_ok_iff.1 h
    obtain ⟨⟨mode, line⟩, _, hmode, hend⟩ := Phrase.bind_eq_ok_iff.1 hsetting
    obtain ⟨q, rfl, hq⟩ := mode_of_read hmode
    obtain ⟨rfl, rfl⟩ := Phrase.pure_eq_ok_iff.1 hend
    exact ⟨l :: n :: q, rfl, .dam hword hn hq⟩
  | var =>
    cases hp
    obtain ⟨n, x, _, hn, rfl, hvalue⟩ := Phrase.name_bind_eq_ok_iff.1 h
    obtain ⟨value, _, hinitial, hend⟩ := Phrase.bind_eq_ok_iff.1 hvalue
    obtain ⟨q, rfl, hq⟩ := initial_of_read hinitial
    obtain ⟨rfl, rfl⟩ := Phrase.pure_eq_ok_iff.1 hend
    exact ⟨l :: n :: q, rfl, .var hword hn hq⟩
  | print =>
    cases hp
    obtain ⟨e, _, hread, hend⟩ := Phrase.bind_eq_ok_iff.1 h
    obtain ⟨q, rfl, hq, -⟩ := expression_eq_ok_iff.1 hread
    obtain ⟨rfl, rfl⟩ := Phrase.pure_eq_ok_iff.1 hend
    exact ⟨l :: q, rfl, .print hword hq⟩
  | nil | opening | closing | adjust | and | or => cases hp

/-- What is read as an expression that stands as a statement is a simple statement. -/
theorem simple_of_read_expression {l : Lexeme} {ls rest : List Lexeme} {s : Statement}
    (h : expressionStatement l.line (l :: ls) = ⟨.ok s, rest⟩) :
    ∃ q, l :: ls = q ++ rest ∧ Simple q s := by
  obtain ⟨e, hread, rfl⟩ := Reading.map_eq_ok_iff.1 h
  obtain ⟨q, heq, hq, -⟩ := expression_eq_ok_iff.1 hread
  obtain ⟨l', q', rfl, -⟩ := hq.begins
  obtain ⟨rfl, rfl⟩ := List.cons.inj heq
  exact ⟨l :: q', rfl, .expr hq⟩

/-- What is read as a simple statement is one. -/
theorem simple_of_read {l : Lexeme} {ls rest : List Lexeme} {s : Statement}
    (h : simpleStatement l ls = ⟨.ok s, rest⟩) : ∃ q, l :: ls = q ++ rest ∧ Simple q s := by
  unfold simpleStatement at h
  split at h
  · rename_i word hword
    split at h
    · rename_i p hp
      exact simple_of_read_after hword hp h
    · exact simple_of_read_expression h
  · exact simple_of_read_expression h

/-! ## Derivations of simple statements are read -/

/-- Whether a simple statement can end before these lexemes: there are none, or they begin with a
terminator or with what ends a passage. -/
def AtBoundary (rest : List Lexeme) : Prop :=
  ∀ l ∈ rest.head?, l.token.isTerminator = true ∨ endsPassage true l.token = true

/-- A boundary is a line break, a semicolon, the end of the text or a closing brace. -/
theorem boundary_cases {token : Token}
    (h : token.isTerminator = true ∨ endsPassage true token = true) :
    token = .lineBreak ∨ token = .sign .semicolon ∨ token = .endOfText ∨
      token = .sign .rightBrace := by
  rcases h with h | h
  · rcases isTerminator_iff.1 h with h | h
    · exact .inl h
    · exact .inr (.inl h)
  · unfold endsPassage at h
    split at h
    · exact .inr (.inr (.inl rfl))
    · exact .inr (.inr (.inr rfl))
    · cases h

/-- Every expression ends before a boundary. -/
theorem AtBoundary.endsBefore {rest : List Lexeme} (h : AtBoundary rest) (tier : Option Tier) :
    EndsBefore tier rest := by
  intro l hl t c hc
  rcases boundary_cases (h l hl) with htoken | htoken | htoken | htoken <;> rw [htoken] at hc <;>
    cases t <;> simp [Tier.operators] at hc

/-- No sign but the semicolon and the closing brace stands at a boundary. -/
theorem AtBoundary.sign_ne {l : Lexeme} {ls : List Lexeme} (h : AtBoundary (l :: ls)) {s : Sign}
    (hs : s ≠ .semicolon ∧ s ≠ .rightBrace) : l.token ≠ .sign s := by
  intro hl
  have hcases := boundary_cases (h l rfl)
  rw [hl] at hcases
  simp [hs] at hcases

/-- An initial value in front of a boundary is read as such. -/
theorem initial_append {p rest : List Lexeme} {v : Option Expr} (h : Initial p v)
    (hrest : AtBoundary rest) : initial (p ++ rest) = ⟨.ok v, rest⟩ := by
  cases h with
  | none =>
    cases rest with
    | nil => rfl
    | cons l ls => exact if_neg (hrest.sign_ne (by decide))
  | some hequals hvalue =>
    rw [List.cons_append, initial, if_pos hequals, Reading.map_eq_ok_iff]
    exact ⟨_, expression_eq_ok_iff.2 ⟨_, rfl, hvalue, hrest.endsBefore _⟩, rfl⟩

/-- Further sources in front of a boundary are read as such. -/
theorem furtherSources_append {p rest : List Lexeme} {ns : List String} (h : FurtherSources p ns)
    (hrest : AtBoundary rest) : furtherSources (p ++ rest) = ⟨.ok ns, rest⟩ := by
  induction h with
  | nil =>
    match rest, hrest with
    | [], _ => rfl
    | [l], hrest => exact if_neg (hrest.sign_ne (by decide))
    | l :: m :: ls, hrest => exact if_neg (hrest.sign_ne (by decide))
  | cons hplus hsource _ ih =>
    rw [List.cons_append, List.cons_append, furtherSources, if_pos hplus, hsource]
    simp only [ih]
    rfl

/-- The mode of a dam in front of a boundary is read as such. -/
theorem damMode_append {p rest : List Lexeme} {mode : DamMode} {line : Nat} (h : Mode p mode line)
    (hrest : AtBoundary rest) : damMode (p ++ rest) = ⟨.ok (mode, line), rest⟩ := by
  cases h with
  | opened hword => simp [damMode, hword]
  | closed hword => simp [damMode, hword]
  | adjusted hword hfactor =>
    rw [List.cons_append, damMode, hword]
    simp only [Reading.map_eq_ok_iff]
    exact ⟨_, expression_eq_ok_iff.2 ⟨_, rfl, hfactor, hrest.endsBefore _⟩, rfl⟩

/-- A simple statement that begins with a keyword is what follows the keyword. -/
theorem simpleStatement_of_keyword {l : Lexeme} {word : Keyword} {p : Phrase Statement}
    (ls : List Lexeme) (hword : l.token = .keyword word)
    (hp : statementAfter? word l.line = some p) : simpleStatement l ls = p ls := by
  rw [simpleStatement, hword]
  simp only [hp]

/-- A simple statement that begins like an expression is an expression. -/
theorem simpleStatement_of_beginsExpression {l : Lexeme} (ls : List Lexeme)
    (h : beginsExpression l.token = true) :
    simpleStatement l ls = expressionStatement l.line (l :: ls) := by
  unfold simpleStatement
  split
  · rename_i word hword
    rw [hword] at h
    cases word <;> first | rfl | cases h
  · rfl

/-- A simple statement in front of a boundary is read as such. -/
theorem simpleStatement_append {l : Lexeme} {p rest : List Lexeme} {s : Statement}
    (h : Simple (l :: p) s) (hrest : AtBoundary rest) :
    simpleStatement l (p ++ rest) = ⟨.ok s, rest⟩ := by
  cases h with
  | river hword hn hinitial =>
    rw [simpleStatement_of_keyword _ hword rfl]
    refine Phrase.name_bind_eq_ok_iff.2 ⟨_, _, _, hn, rfl, ?_⟩
    exact Phrase.bind_eq_ok_iff.2 ⟨_, _, initial_append hinitial hrest, rfl⟩
  | output hword hn =>
    rw [simpleStatement_of_keyword _ hword rfl]
    exact Phrase.name_bind_eq_ok_iff.2 ⟨_, _, _, hn, rfl, rfl⟩
  | combine hword hn ha hm hfurther =>
    rw [simpleStatement_of_keyword _ hword rfl]
    refine Phrase.name_bind_eq_ok_iff.2 ⟨_, _, _, hn, rfl, ?_⟩
    refine Phrase.sign_bind_eq_ok_iff.2 ⟨_, _, ha, rfl, ?_⟩
    refine Phrase.name_bind_eq_ok_iff.2 ⟨_, _, _, hm, rfl, ?_⟩
    exact Phrase.bind_eq_ok_iff.2 ⟨_, _, furtherSources_append hfurther hrest, rfl⟩
  | flow hword hm ha hn =>
    rw [simpleStatement_of_keyword _ hword rfl]
    refine Phrase.name_bind_eq_ok_iff.2 ⟨_, _, _, hm, rfl, ?_⟩
    refine Phrase.sign_bind_eq_ok_iff.2 ⟨_, _, ha, rfl, ?_⟩
    exact Phrase.name_bind_eq_ok_iff.2 ⟨_, _, _, hn, rfl, rfl⟩
  | dam hword hn hmode =>
    rw [simpleStatement_of_keyword _ hword rfl]
    refine Phrase.name_bind_eq_ok_iff.2 ⟨_, _, _, hn, rfl, ?_⟩
    exact Phrase.bind_eq_ok_iff.2 ⟨_, _, damMode_append hmode hrest, rfl⟩
  | var hword hn hinitial =>
    rw [simpleStatement_of_keyword _ hword rfl]
    refine Phrase.name_bind_eq_ok_iff.2 ⟨_, _, _, hn, rfl, ?_⟩
    exact Phrase.bind_eq_ok_iff.2 ⟨_, _, initial_append hinitial hrest, rfl⟩
  | print hword hshown =>
    rw [simpleStatement_of_keyword _ hword rfl]
    refine Phrase.bind_eq_ok_iff.2 ⟨_, _, ?_, rfl⟩
    exact expression_eq_ok_iff.2 ⟨_, rfl, hshown, hrest.endsBefore _⟩
  | expr hexpr =>
    obtain ⟨_, _, heq, hbegins⟩ := hexpr.begins
    cases heq
    rw [simpleStatement_of_beginsExpression _ hbegins]
    refine Reading.map_eq_ok_iff.2 ⟨_, ?_, rfl⟩
    exact expression_eq_ok_iff.2 ⟨_, rfl, hexpr, hrest.endsBefore _⟩

/-! ## Items are read -/

/-- No simple statement is a block. -/
theorem Simple.isBlock_eq_false {p : List Lexeme} {s : Statement} (h : Simple p s) :
    s.isBlock = false := by
  cases h <;> rfl

/-- A terminator in front of a passage is skipped. -/
theorem passage_terminator (inBlock : Bool) {l : Lexeme} (ls : List Lexeme)
    (h : l.token.isTerminator = true) : passage inBlock (l :: ls) = passage inBlock ls := by
  rw [passage_eq, passage_eq inBlock ls, List.dropWhile_cons_of_pos (a := l) h]

/-- What ends a passage is no terminator, and it ends the body of a block, too. -/
theorem endsPassage_facts {inBlock : Bool} {token : Token} (h : endsPassage inBlock token = true) :
    token.isTerminator = false ∧ endsPassage true token = true := by
  unfold endsPassage at h
  split at h
  · exact ⟨rfl, rfl⟩
  · exact ⟨rfl, rfl⟩
  · cases h

/-- Where a passage ends at once, nothing is read. -/
theorem passage_end {inBlock : Bool} {rest : List Lexeme}
    (h : ∀ l ∈ rest.head?, endsPassage inBlock l.token = true) :
    passage inBlock rest = ⟨[], [], rest⟩ := by
  cases rest with
  | nil =>
    rw [passage_eq]
    rfl
  | cons l ls =>
    have hterm := (endsPassage_facts (h l rfl)).1
    rw [passage_eq, List.dropWhile_cons_of_neg (a := l) (Bool.not_eq_true _ ▸ hterm)]
    exact if_pos (h l rfl)

/-- A passage that begins with an item is the item, followed by the passage behind it. -/
theorem passage_item {inBlock : Bool} {l : Lexeme} (ls : List Lexeme)
    (hterm : l.token.isTerminator = false) (hend : endsPassage inBlock l.token = false) :
    passage inBlock (l :: ls) =
      (item inBlock (l :: ls)).followedBy (passage inBlock (item inBlock (l :: ls)).rest) := by
  rw [passage_eq, List.dropWhile_cons_of_neg (Bool.not_eq_true _ ▸ hterm)]
  exact if_neg (Bool.not_eq_true _ ▸ hend)

/-- Induction along a passage: it is over, or it begins with a terminator or with an item. An item
may be a block, so what is to be shown may be assumed of the inside of a block as well as of what
follows the item. -/
theorem passage_induction {P : Bool → List Lexeme → Prop}
    (finished : ∀ inBlock ts, (∀ l ∈ ts.head?, endsPassage inBlock l.token = true) → P inBlock ts)
    (terminator : ∀ inBlock l ls, l.token.isTerminator = true → P inBlock ls →
      P inBlock (l :: ls))
    (begun : ∀ inBlock l ls, l.token.isTerminator = false → endsPassage inBlock l.token = false →
      P true ls → P inBlock (item inBlock (l :: ls)).rest → P inBlock (l :: ls))
    (inBlock : Bool) (ts : List Lexeme) : P inBlock ts := by
  induction hn : ts.length using Nat.strongRecOn generalizing ts inBlock with
  | ind n ih =>
    cases ts with
    | nil => exact finished inBlock [] fun l hl => by cases hl
    | cons l ls =>
      have hlength : ls.length < n := by
        rw [← hn]
        exact Nat.lt_succ_self _
      cases hterm : l.token.isTerminator with
      | true => exact terminator inBlock l ls hterm (ih ls.length hlength inBlock ls rfl)
      | false =>
        cases hend : endsPassage inBlock l.token with
        | true =>
          apply finished
          intro k hk
          cases hk
          exact hend
        | false =>
          have hshort := length_item_lt ls hend
          exact begun inBlock l ls hterm hend (ih ls.length hlength true ls rfl)
            (ih _ (hn ▸ hshort) inBlock _ rfl)

/-- The end of a passage is a boundary. -/
theorem atBoundary_of_end {inBlock : Bool} {rest : List Lexeme}
    (h : ∀ l ∈ rest.head?, endsPassage inBlock l.token = true) : AtBoundary rest := by
  intro l hl
  exact .inr (endsPassage_facts (h l hl)).2

/-- A terminator is a boundary. -/
theorem atBoundary_of_terminator {l : Lexeme} (ls : List Lexeme)
    (h : l.token = .lineBreak ∨ l.token = .sign .semicolon) : AtBoundary (l :: ls) := by
  intro k hk
  cases hk
  exact .inl (isTerminator_iff.2 h)

/-- A statement ends at the end of a passage, which is not read. -/
theorem statementEnd_of_end {inBlock : Bool} {rest : List Lexeme}
    (h : ∀ l ∈ rest.head?, endsPassage inBlock l.token = true) :
    statementEnd rest = ⟨.ok (), rest⟩ := by
  cases rest with
  | nil => rfl
  | cons l ls =>
    obtain ⟨hterm, hend⟩ := endsPassage_facts (h l rfl)
    rw [statementEnd, if_neg (Bool.not_eq_true _ ▸ hterm), if_pos hend]

/-- A block whose body has no errors and that is closed is one statement without errors. -/
theorem item_block (inBlock : Bool) {l m : Lexeme} {ls rest : List Lexeme} {inner : List Statement}
    (hopen : l.token = .sign .leftBrace) (hbody : passage true ls = ⟨inner, [], m :: rest⟩)
    (hclose : m.token = .sign .rightBrace) :
    item inBlock (l :: ls) = ⟨[.block inner l.line], [], rest⟩ := by
  have hreading : statement (l :: ls) = ⟨⟨.ok (.block inner l.line), rest⟩, []⟩ := by
    rw [statement_cons, if_pos hopen, block, hbody, closeBlock]
    simp only [Phrase.sign, if_pos hclose]
    rfl
  rw [item, hreading]
  rfl

/-- A simple statement with its end is one statement without errors. -/
theorem item_simple (inBlock : Bool) {l : Lexeme} {ls mid rest : List Lexeme} {s : Statement}
    (hopen : l.token ≠ .sign .leftBrace) (hread : simpleStatement l ls = ⟨.ok s, mid⟩)
    (hsimple : s.isBlock = false) (hend : statementEnd mid = ⟨.ok (), rest⟩) :
    item inBlock (l :: ls) = ⟨[s], [], rest⟩ := by
  have hended : ended ⟨.ok s, mid⟩ = ⟨.ok s, rest⟩ := by
    simp only [ended, hsimple, hend]
    rfl
  rw [item, statement_cons, if_neg hopen, hread]
  simp only [conclude, hended]

/-- Items before the end of a passage are what the passage holds. -/
theorem passage_append {ts : List Lexeme} {ss : List Statement} (h : Items ts ss) {inBlock : Bool}
    {rest : List Lexeme} (hrest : ∀ l ∈ rest.head?, endsPassage inBlock l.token = true) :
    passage inBlock (ts ++ rest) = ⟨ss, [], rest⟩ := by
  induction h generalizing inBlock rest with
  | nil => exact passage_end hrest
  | terminator hterm _ ih =>
    rw [List.cons_append, passage_terminator inBlock _ (isTerminator_iff.2 hterm), ih hrest]
  | @block l m body ts inner ss hopen _ hclose _ ihbody ih =>
    have hbody : passage true (body ++ m :: (ts ++ rest)) = ⟨inner, [], m :: (ts ++ rest)⟩ := by
      apply ihbody
      intro k hk
      cases hk
      rw [hclose]
      rfl
    have hitem := item_block inBlock hopen hbody hclose
    rw [List.append_assoc, List.cons_append, List.cons_append,
      passage_item _ (by rw [hopen]; rfl) (by rw [hopen]; rfl), hitem]
    simp only [ih hrest]
    rfl
  | last hsimple =>
    obtain ⟨l, p, rfl, hbegins⟩ := hsimple.begins
    obtain ⟨hterm, hopen, hend⟩ := beginsSimple_facts hbegins
    have hread := simpleStatement_append hsimple (atBoundary_of_end hrest)
    have hitem := item_simple inBlock hopen hread hsimple.isBlock_eq_false
      (statementEnd_of_end hrest)
    rw [List.cons_append, passage_item _ hterm (hend inBlock), hitem]
    simp only [passage_end hrest]
    rfl
  | @simple p ts s m ss hsimple hm _ ih =>
    obtain ⟨l, p, rfl, hbegins⟩ := hsimple.begins
    obtain ⟨hterm, hopen, hend⟩ := beginsSimple_facts hbegins
    have hread := simpleStatement_append hsimple (atBoundary_of_terminator (ts ++ rest) hm)
    have hitem := item_simple inBlock hopen hread hsimple.isBlock_eq_false
      (if_pos (isTerminator_iff.2 hm))
    rw [List.append_assoc, List.cons_append, List.cons_append, passage_item _ hterm (hend inBlock),
      hitem]
    simp only [ih hrest]
    rfl

/-! ## Passages without errors are items -/

/-- Items do not begin with what ends a passage. -/
theorem Items.ends_eq_false {l : Lexeme} {ts : List Lexeme} {ss : List Statement}
    (h : Items (l :: ts) ss) : endsPassage true l.token = false := by
  generalize hts : l :: ts = us at h
  cases h with
  | nil => cases hts
  | terminator hterm =>
    cases hts
    rcases hterm with htoken | htoken <;> rw [htoken] <;> rfl
  | block hopen =>
    cases hts
    rw [hopen]
    rfl
  | last hsimple =>
    obtain ⟨k, p, rfl, hbegins⟩ := hsimple.begins
    cases hts
    exact (beginsSimple_facts hbegins).2.2 true
  | simple hsimple =>
    obtain ⟨k, p, rfl, hbegins⟩ := hsimple.begins
    cases hts
    exact (beginsSimple_facts hbegins).2.2 true

/-- No lexemes hold no statements. -/
theorem Items.eq_nil {ss : List Statement} (h : Items [] ss) : ss = [] := by
  generalize hts : ([] : List Lexeme) = us at h
  cases h with
  | nil => rfl
  | terminator => cases hts
  | block => cases hts
  | last hsimple =>
    obtain ⟨k, p, rfl, -⟩ := hsimple.begins
    cases hts
  | simple hsimple =>
    obtain ⟨k, p, rfl, -⟩ := hsimple.begins
    cases hts

/-- A statement that is ended is followed by a terminator, or stands at the end of a passage. -/
theorem statementEnd_cases {mid rest : List Lexeme} {u : Unit}
    (h : statementEnd mid = ⟨.ok u, rest⟩) :
    (∃ l, (l.token = .lineBreak ∨ l.token = .sign .semicolon) ∧ mid = l :: rest) ∨
      (mid = rest ∧ ∀ l ∈ rest.head?, endsPassage true l.token = true) := by
  unfold statementEnd at h
  split at h
  · cases h
    exact .inr ⟨rfl, fun l hl => by cases hl⟩
  · rename_i l ls
    split at h
    · rename_i hterm
      cases h
      exact .inl ⟨l, isTerminator_iff.1 hterm, rfl⟩
    · split at h
      · rename_i hend
        cases h
        refine .inr ⟨rfl, fun k hk => ?_⟩
        cases hk
        exact hend
      · cases h

/-- A statement that is concluded without errors was read and ended. -/
theorem conclude_of_errors_eq_nil {inBlock : Bool} {r : StatementReading}
    (h : (conclude inBlock r).errors = []) :
    ∃ s rest, ended r.reading = ⟨.ok s, rest⟩ ∧ r.recorded = [] ∧
      conclude inBlock r = ⟨[s], [], rest⟩ := by
  unfold conclude at h ⊢
  split at h
  · rename_i s rest hended
    exact ⟨s, rest, hended, h, congrArg (Passage.mk [s] · rest) h⟩
  · simp at h

/-- What an item is that was read without an error: a block around a passage without errors, or a
simple statement with its end. -/
theorem item_cases {inBlock : Bool} {l : Lexeme} {ls : List Lexeme}
    (h : (item inBlock (l :: ls)).errors = []) :
    (∃ m inner rest, l.token = .sign .leftBrace ∧ passage true ls = ⟨inner, [], m :: rest⟩ ∧
        m.token = .sign .rightBrace ∧
        item inBlock (l :: ls) = ⟨[.block inner l.line], [], rest⟩) ∨
      ∃ s p mid rest, l :: ls = p ++ mid ∧ Simple p s ∧ statementEnd mid = ⟨.ok (), rest⟩ ∧
        item inBlock (l :: ls) = ⟨[s], [], rest⟩ := by
  obtain ⟨s, rest, hended, hrecorded, hitem⟩ := conclude_of_errors_eq_nil h
  rw [statement_cons] at hended hrecorded
  by_cases hopen : l.token = .sign .leftBrace
  · left
    rw [if_pos hopen] at hended hrecorded
    cases hbody : passage true ls with
    | mk inner errors left =>
      rw [block, hbody] at hended hrecorded
      obtain rfl : errors = [] := hrecorded
      cases hsign : Phrase.sign .rightBrace .closingBrace left with
      | mk outcome mid =>
        cases outcome with
        | error wanted =>
          simp [closeBlock, hsign, Reading.map, Except.map, ended] at hended
        | ok u =>
          obtain ⟨m, hm, rfl⟩ := Phrase.sign_eq_ok_iff.1 hsign
          simp only [closeBlock, hsign] at hended
          cases hended
          exact ⟨m, inner, mid, hopen, rfl, hm, hitem⟩
  · right
    rw [if_neg hopen] at hended
    cases hread : simpleStatement l ls with
    | mk outcome mid =>
      cases outcome with
      | error wanted => simp [hread, ended] at hended
      | ok s' =>
        obtain ⟨p, hp, hsimple⟩ := simple_of_read hread
        simp only [hread, ended, hsimple.isBlock_eq_false] at hended
        obtain ⟨u, hend, rfl⟩ := Reading.map_eq_ok_iff.1 hended
        exact ⟨s', p, mid, rest, hp, hsimple, hend, hitem⟩

/-- A passage without errors consists of items up to its end. -/
theorem items_of_errors_eq_nil {inBlock : Bool} {ts : List Lexeme}
    (h : (passage inBlock ts).errors = []) :
    ∃ p, ts = p ++ (passage inBlock ts).rest ∧ Items p (passage inBlock ts).statements ∧
      ∀ l ∈ (passage inBlock ts).rest.head?, endsPassage inBlock l.token = true := by
  induction hn : ts.length using Nat.strongRecOn generalizing ts inBlock with
  | ind n ih =>
    cases ts with
    | nil =>
      rw [passage_end fun l hl => by cases hl]
      exact ⟨[], rfl, .nil, fun l hl => by cases hl⟩
    | cons l ls =>
      have hlength : ls.length < n := by
        rw [← hn]
        exact Nat.lt_succ_self _
      cases hterm : l.token.isTerminator with
      | true =>
        rw [passage_terminator inBlock ls hterm] at h ⊢
        obtain ⟨p, hp, hitems, hend⟩ := ih ls.length hlength h rfl
        exact ⟨l :: p, congrArg (l :: ·) hp, .terminator (isTerminator_iff.1 hterm) hitems, hend⟩
      | false =>
        cases hends : endsPassage inBlock l.token with
        | true =>
          have hrest : ∀ k ∈ (l :: ls).head?, endsPassage inBlock k.token = true := by
            intro k hk
            cases hk
            exact hends
          rw [passage_end hrest]
          exact ⟨[], rfl, .nil, hrest⟩
        | false =>
          have hshort := length_item_lt ls hends
          rw [passage_item ls hterm hends] at h ⊢
          obtain ⟨hfirst, hmore⟩ := List.append_eq_nil_iff.1 h
          obtain ⟨p, hp, hitems, hend⟩ := ih _ (hn ▸ hshort) hmore rfl
          rcases item_cases hfirst with ⟨m, inner, rest, hopen, hbody, hclose, hitem⟩ |
            ⟨s, q, mid, rest, hq, hsimple, hstop, hitem⟩
          · -- A block: the body is a passage of its own, and items follow the closing brace.
            have hbodyErrors : (passage true ls).errors = [] := by rw [hbody]
            obtain ⟨body, hls, hinside, -⟩ := ih ls.length hlength hbodyErrors rfl
            rw [hbody] at hls hinside
            rw [hitem] at hp hitems hend ⊢
            refine ⟨l :: body ++ m :: p, ?_, .block hopen hinside hclose hitems, hend⟩
            show l :: ls = (l :: body ++ m :: p) ++ (passage inBlock rest).rest
            rw [List.append_assoc, List.cons_append, List.cons_append, ← hp]
            exact congrArg (l :: ·) hls
          · rw [hitem] at hp hitems hend ⊢
            rcases statementEnd_cases hstop with ⟨k, hk, rfl⟩ | ⟨rfl, hboundary⟩
            · refine ⟨q ++ k :: p, ?_, .simple hsimple hk hitems, hend⟩
              show l :: ls = (q ++ k :: p) ++ (passage inBlock rest).rest
              rw [List.append_assoc, List.cons_append, ← hp]
              exact hq
            · -- Nothing that ends a passage begins an item, so no item follows this statement.
              cases p with
              | nil =>
                refine ⟨q, ?_, ?_, hend⟩
                · show l :: ls = q ++ (passage inBlock mid).rest
                  rw [hq]
                  exact congrArg (q ++ ·) hp
                · show Items q (s :: (passage inBlock mid).statements)
                  rw [hitems.eq_nil]
                  exact .last hsimple
              | cons k p =>
                have hk : endsPassage true k.token = true := by
                  apply hboundary
                  show k ∈ mid.head?
                  rw [show mid = k :: p ++ (passage inBlock mid).rest from hp]
                  rfl
                rw [hitems.ends_eq_false] at hk
                cases hk

/-! ## No phrase holds the end of the text -/

/-- Lexemes among which the end of the text does not stand. -/
def WithoutEnd (ts : List Lexeme) : Prop :=
  ∀ l ∈ ts, l.token ≠ .endOfText

/-- The end of the text does not stand among no lexemes. -/
theorem withoutEnd_nil : WithoutEnd [] := by
  intro l hl
  cases hl

/-- The end of the text stands among some lexemes if it is the first or stands among the others. -/
theorem withoutEnd_cons {l : Lexeme} {ts : List Lexeme} :
    WithoutEnd (l :: ts) ↔ l.token ≠ .endOfText ∧ WithoutEnd ts := by
  simp [WithoutEnd]

/-- The end of the text stands in neither of two lists if it does not stand in both in a row. -/
theorem withoutEnd_append {ts us : List Lexeme} :
    WithoutEnd (ts ++ us) ↔ WithoutEnd ts ∧ WithoutEnd us := by
  unfold WithoutEnd
  constructor
  · intro h
    constructor
    · exact fun l hl => h l (List.mem_append_left us hl)
    · exact fun l hl => h l (List.mem_append_right ts hl)
  · rintro ⟨hts, hus⟩ l hl
    rcases List.mem_append.1 hl with hl | hl
    · exact hts l hl
    · exact hus l hl

/-- The end of the text does not stand in an expression. -/
theorem Derives.withoutEnd {tier : Option Tier} {p : List Lexeme} {e : Expr}
    (h : Derives tier p e) : WithoutEnd p := by
  induction h with
  | tighter _ ih => exact ih
  | @chain t p q left right l c _ hop _ ihleft ihright =>
    refine withoutEnd_append.2 ⟨ihleft, withoutEnd_cons.2 ⟨fun hl => ?_, ihright⟩⟩
    rw [hl] at hop
    cases t <;> simp [Tier.operators] at hop
  | unary hop _ ih =>
    refine withoutEnd_cons.2 ⟨fun hl => ?_, ih⟩
    rw [hl] at hop
    simp [unaryOperators] at hop
  | group hopen _ hclose ih => simp [withoutEnd_cons, withoutEnd_append, withoutEnd_nil, *]
  | number h => simp [withoutEnd_cons, withoutEnd_nil, h]
  | text h => simp [withoutEnd_cons, withoutEnd_nil, h]
  | bool h => simp [withoutEnd_cons, withoutEnd_nil, h]
  | nil h => simp [withoutEnd_cons, withoutEnd_nil, h]
  | name h => simp [withoutEnd_cons, withoutEnd_nil, h]

/-- The end of the text does not stand in an initial value. -/
theorem Initial.withoutEnd {p : List Lexeme} {v : Option Expr} (h : Initial p v) :
    WithoutEnd p := by
  cases h with
  | none => exact withoutEnd_nil
  | some hequals hvalue => simp [withoutEnd_cons, hequals, hvalue.withoutEnd]

/-- The end of the text does not stand among further sources. -/
theorem FurtherSources.withoutEnd {p : List Lexeme} {ns : List String} (h : FurtherSources p ns) :
    WithoutEnd p := by
  induction h with
  | nil => exact withoutEnd_nil
  | cons hplus hsource _ ih => simp [withoutEnd_cons, hplus, hsource, ih]

/-- The end of the text does not stand in the mode of a dam. -/
theorem Mode.withoutEnd {p : List Lexeme} {mode : DamMode} {line : Nat} (h : Mode p mode line) :
    WithoutEnd p := by
  cases h with
  | opened hword => simp [withoutEnd_cons, withoutEnd_nil, hword]
  | closed hword => simp [withoutEnd_cons, withoutEnd_nil, hword]
  | adjusted hword hfactor => simp [withoutEnd_cons, hword, hfactor.withoutEnd]

/-- The end of the text does not stand in a simple statement. -/
theorem Simple.withoutEnd {p : List Lexeme} {s : Statement} (h : Simple p s) : WithoutEnd p := by
  cases h with
  | river hword hn hinitial => simp [withoutEnd_cons, hword, hn, hinitial.withoutEnd]
  | output hword hn => simp [withoutEnd_cons, withoutEnd_nil, hword, hn]
  | combine hword hn ha hm hmore => simp [withoutEnd_cons, hword, hn, ha, hm, hmore.withoutEnd]
  | flow hword hm ha hn => simp [withoutEnd_cons, withoutEnd_nil, hword, hm, ha, hn]
  | dam hword hn hmode => simp [withoutEnd_cons, hword, hn, hmode.withoutEnd]
  | var hword hn hinitial => simp [withoutEnd_cons, hword, hn, hinitial.withoutEnd]
  | print hword hshown => simp [withoutEnd_cons, hword, hshown.withoutEnd]
  | expr hexpr => exact hexpr.withoutEnd

/-- The end of the text does not stand among items. -/
theorem Items.withoutEnd {ts : List Lexeme} {ss : List Statement} (h : Items ts ss) :
    WithoutEnd ts := by
  induction h with
  | nil => exact withoutEnd_nil
  | terminator hterm _ ih =>
    refine withoutEnd_cons.2 ⟨?_, ih⟩
    rcases hterm with htoken | htoken <;> simp [htoken]
  | block hopen _ hclose _ ihbody ih =>
    simp [withoutEnd_append, withoutEnd_cons, hopen, hclose, ihbody, ih]
  | last hsimple => exact hsimple.withoutEnd
  | simple hsimple hterm _ ih =>
    refine withoutEnd_append.2 ⟨hsimple.withoutEnd, withoutEnd_cons.2 ⟨?_, ih⟩⟩
    rcases hterm with htoken | htoken <;> simp [htoken]

/-! ## The readings of whole programs -/

/-- Outside of blocks nothing but the end of the text ends a passage. -/
theorem endsPassage_false_iff {token : Token} :
    endsPassage false token = true ↔ token = .endOfText := by
  fun_cases endsPassage false token <;> simp_all

/-- What is read as a program without errors are items. -/
theorem items_of_program {ts : List Lexeme} {last : Lexeme} (hts : WithoutEnd ts)
    (hlast : last.token = .endOfText) (h : (passage false (ts ++ [last])).errors = []) :
    Items ts (passage false (ts ++ [last])).statements := by
  obtain ⟨p, hp, hitems, hend⟩ := items_of_errors_eq_nil h
  cases hrest : (passage false (ts ++ [last])).rest with
  | nil =>
    -- The end of the text would be part of an item.
    rw [hrest, List.append_nil] at hp
    have hmem : last ∈ p := by
      rw [← hp]
      simp
    exact absurd hlast (hitems.withoutEnd last hmem)
  | cons l ls =>
    rw [hrest] at hp hend
    have hl : l.token = .endOfText := endsPassage_false_iff.1 (hend l rfl)
    suffices hsame : p = ts by rwa [hsame] at hitems
    rcases List.append_eq_append_iff.1 hp with ⟨a, ha, hlast'⟩ | ⟨c, hc, hrest'⟩
    · cases a with
      | nil => rw [ha, List.append_nil]
      | cons k a => simp at hlast'
    · cases c with
      | nil => rw [hc, List.append_nil]
      | cons k c =>
        -- The end of the text would stand among the lexemes before it.
        cases hrest'
        exact absurd hl (hts l (by simp [hc]))

/-- A program is read without an error exactly if its lexemes are items, and then it has their
statements. No lexemes are items in two ways. -/
theorem program_read_iff_items (ts : List Lexeme) (last : Lexeme) (hts : WithoutEnd ts)
    (hlast : last.token = .endOfText) :
    (∀ ss, (passage false (ts ++ [last])).statements = ss ∧
        (passage false (ts ++ [last])).errors = [] ↔ Items ts ss) ∧
      ∀ ss ss', Items ts ss → Items ts ss' → ss = ss' := by
  have hend : ∀ l ∈ [last].head?, endsPassage false l.token = true := by
    intro l hl
    cases hl
    exact endsPassage_false_iff.2 hlast
  refine ⟨fun ss => ⟨?_, fun h => ?_⟩, fun ss ss' h h' => ?_⟩
  · rintro ⟨rfl, herrors⟩
    exact items_of_program hts hlast herrors
  · rw [passage_append h hend]
    exact ⟨rfl, rfl⟩
  · have hread := passage_append h hend
    rw [passage_append h' hend] at hread
    exact (congrArg Passage.statements hread).symm

/-- A block with a line break behind its opening brace and a dam in it, and right behind the block
an expression without an end: the statements nest as the items do, and the dam stands on the line of
its mode. -/
theorem program_read_iff_items_nested :
    Items
      [⟨.sign .leftBrace, "\x7b", 1⟩, ⟨.lineBreak, "\n", 1⟩, ⟨.keyword .dam, "dam", 2⟩,
        ⟨.name "A", "A", 2⟩, ⟨.keyword .opening, "open", 3⟩, ⟨.sign .rightBrace, "\x7d", 3⟩,
        ⟨.sign .bang, "!", 3⟩, ⟨.name "A", "A", 3⟩]
      [.block [.dam "A" .opened 3] 1, .expr (.unary .not (.name "A" 3) 3) 3] := by
  refine ((program_read_iff_items _ ⟨.endOfText, "", 4⟩ ?_ rfl).1 _).1 ⟨?_, ?_⟩
  · simp [WithoutEnd]
  · cbv
  · cbv

end Watershed.Grammar
