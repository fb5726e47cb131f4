import Watershed.Grammar.Expression

/-!
# The grammar of expressions

The stratified grammar of expressions as a relation between lexemes and trees: six tiers of
operators, each associating to the left, over prefix operators and primary expressions. Reading an
expression of a tier is the same as splitting off a front part that derives the tree, where what is
left does not begin with an operator of the tier or of a tighter one (`expressionOf_eq_ok_iff`). So
no lexemes derive two trees.
-/

set_option autoImplicit false

namespace Watershed.Grammar

/-! ## Successful readings -/

namespace Reading

variable {α β : Type}

/-- A changed value comes from a reading with some value, and from the same lexemes. -/
theorem map_eq_ok_iff {f : α → β} {r : Reading α} {b : β} {rest : List Lexeme} :
    r.map f = ⟨.ok b, rest⟩ ↔ ∃ a, r = ⟨.ok a, rest⟩ ∧ f a = b := by
  obtain ⟨outcome, left⟩ := r
  cases outcome with
  | ok a =>
    constructor
    · intro h
      cases h
      exact ⟨a, rfl, rfl⟩
    · rintro ⟨_, heq, rfl⟩
      cases heq
      rfl
  | error wanted => simp [map, Except.map]

end Reading

namespace Phrase

variable {α β : Type}

/-- If the first of two phrases is read, the second is read behind it. -/
theorem bind_of_ok {p : Phrase α} {ts mid : List Lexeme} {a : α} (f : α → Phrase β)
    (h : p ts = ⟨.ok a, mid⟩) : (p >>= f) ts = f a mid := by
  simp only [bind, h]

/-- Two phrases in a row are read if the first is, and the second behind it. -/
theorem bind_eq_ok_iff {p : Phrase α} {f : α → Phrase β} {ts rest : List Lexeme} {b : β} :
    (p >>= f) ts = ⟨.ok b, rest⟩ ↔ ∃ a mid, p ts = ⟨.ok a, mid⟩ ∧ f a mid = ⟨.ok b, rest⟩ := by
  simp only [bind]
  split
  · rename_i a mid heq
    constructor
    · intro h
      exact ⟨a, mid, heq, h⟩
    · rintro ⟨a', mid', heq', h⟩
      cases heq.symm.trans heq'
      exact h
  · rename_i wanted mid heq
    simp [heq]

/-- A phrase that reads nothing has its value and leaves all lexemes. -/
theorem pure_eq_ok_iff {a b : α} {ts rest : List Lexeme} :
    (pure a : Phrase α) ts = ⟨.ok b, rest⟩ ↔ a = b ∧ ts = rest := by
  show (⟨.ok a, ts⟩ : Reading α) = ⟨.ok b, rest⟩ ↔ a = b ∧ ts = rest
  simp

/-- A name is read from a lexeme of a name, and from no other. -/
theorem name_eq_ok_iff {wanted : Expectation} {ts rest : List Lexeme} {n : String} :
    name wanted ts = ⟨.ok n, rest⟩ ↔ ∃ l, l.token = .name n ∧ ts = l :: rest := by
  fun_cases name wanted ts with
  | case1 => simp
  | case2 l ls m hm =>
    constructor
    · intro h
      cases h
      exact ⟨l, hm, rfl⟩
    · rintro ⟨_, hn, heq⟩
      cases heq
      cases hm.symm.trans hn
      rfl
  | case3 l ls hother =>
    simp only [Reading.mk.injEq, reduceCtorEq, false_and, List.cons.injEq, false_iff]
    rintro ⟨_, hn, rfl, -⟩
    exact hother n hn

/-- A sign is read from a lexeme of this sign, and from no other. -/
theorem sign_eq_ok_iff {s : Sign} {wanted : Expectation} {ts rest : List Lexeme} {u : Unit} :
    sign s wanted ts = ⟨.ok u, rest⟩ ↔ ∃ l, l.token = .sign s ∧ ts = l :: rest := by
  fun_cases sign s wanted ts with
  | case1 => simp
  | case2 l ls h =>
    constructor
    · intro heq
      cases heq
      exact ⟨l, h, rfl⟩
    · rintro ⟨_, -, heq⟩
      cases heq
      rfl
  | case3 l ls h =>
    simp only [Reading.mk.injEq, reduceCtorEq, false_and, List.cons.injEq, false_iff]
    rintro ⟨_, hs, rfl, -⟩
    exact h hs

/-- A name is read before another phrase from a lexeme of a name. -/
theorem name_bind_eq_ok_iff {wanted : Expectation} {f : String → Phrase β} {ts rest : List Lexeme}
    {b : β} :
    (name wanted >>= f) ts = ⟨.ok b, rest⟩ ↔
      ∃ l n ls, l.token = .name n ∧ ts = l :: ls ∧ f n ls = ⟨.ok b, rest⟩ := by
  rw [bind_eq_ok_iff]
  constructor
  · rintro ⟨n, ls, hname, hf⟩
    obtain ⟨l, hl, rfl⟩ := name_eq_ok_iff.1 hname
    exact ⟨l, n, ls, hl, rfl, hf⟩
  · rintro ⟨l, n, ls, hl, rfl, hf⟩
    exact ⟨n, ls, name_eq_ok_iff.2 ⟨l, hl, rfl⟩, hf⟩

/-- A sign is read before another phrase from a lexeme of this sign. -/
theorem sign_bind_eq_ok_iff {s : Sign} {wanted : Expectation} {f : Unit → Phrase β}
    {ts rest : List Lexeme} {b : β} :
    (sign s wanted >>= f) ts = ⟨.ok b, rest⟩ ↔
      ∃ l ls, l.token = .sign s ∧ ts = l :: ls ∧ f () ls = ⟨.ok b, rest⟩ := by
  rw [bind_eq_ok_iff]
  constructor
  · rintro ⟨_, ls, hsign, hf⟩
    obtain ⟨l, hl, rfl⟩ := sign_eq_ok_iff.1 hsign
    exact ⟨l, ls, hl, rfl, hf⟩
  · rintro ⟨l, ls, hl, rfl, hf⟩
    exact ⟨(), ls, sign_eq_ok_iff.2 ⟨l, hl, rfl⟩, hf⟩

end Phrase

/-! ## The grammar -/

/-- The operators of a tier: the tokens that spell them and what they stand for. -/
def Tier.operators : Tier → List (Token × Connective)
  | disjunction => [(.keyword .or, .logical .or)]
  | conjunction => [(.keyword .and, .logical .and)]
  | equality => [(.sign .equalEqual, .binary .equal), (.sign .bangEqual, .binary .notEqual)]
  | comparison =>
    [(.sign .less, .binary .less), (.sign .lessEqual, .binary .lessEqual),
      (.sign .greater, .binary .greater), (.sign .greaterEqual, .binary .greaterEqual)]
  | sum => [(.sign .plus, .binary .add), (.sign .minus, .binary .sub)]
  | product => [(.sign .star, .binary .mul), (.sign .slash, .binary .div)]

/-- The prefix operators: the tokens that spell them and what they stand for. -/
def unaryOperators : List (Token × UnaryOp) :=
  [(.sign .minus, .negate), (.sign .bang, .not)]

/-- The lexemes that are an expression of a tier, and the tree of the expression. The tier `none`
holds what operators stand between: prefix operators, literals, names and groups. A node stands on
the line of its operator, of its opening parenthesis or of its only lexeme. -/
inductive Derives : Option Tier → List Lexeme → Expr → Prop
  | tighter {t : Tier} {p : List Lexeme} {e : Expr} (inner : Derives t.tighter p e) :
      Derives (some t) p e
  | chain {t : Tier} {p q : List Lexeme} {left right : Expr} {l : Lexeme} {c : Connective}
      (first : Derives (some t) p left) (operator : (l.token, c) ∈ t.operators)
      (second : Derives t.tighter q right) :
      Derives (some t) (p ++ l :: q) (c.join left right l.line)
  | unary {l : Lexeme} {op : UnaryOp} {p : List Lexeme} {e : Expr}
      (operator : (l.token, op) ∈ unaryOperators) (operand : Derives none p e) :
      Derives none (l :: p) (.unary op e l.line)
  | group {l m : Lexeme} {p : List Lexeme} {e : Expr} (opening : l.token = .sign .leftParen)
      (inner : Derives (some .disjunction) p e) (closing : m.token = .sign .rightParen) :
      Derives none (l :: p ++ [m]) (.group e l.line)
  | number {l : Lexeme} {x : Float} (h : l.token = .number x) :
      Derives none [l] (.literal (.number x) l.line)
  | text {l : Lexeme} {s : String} (h : l.token = .text s) :
      Derives none [l] (.literal (.text s) l.line)
  | bool {l : Lexeme} {b : Bool} (h : l.token = .bool b) :
      Derives none [l] (.literal (.bool b) l.line)
  | nil {l : Lexeme} (h : l.token = .keyword .nil) : Derives none [l] (.literal .nil l.line)
  | name {l : Lexeme} {n : String} (h : l.token = .name n) : Derives none [l] (.name n l.line)

/-- Whether an expression of a tier ends before these lexemes: they do not begin with an operator
of the tier or of a tighter one. -/
def EndsBefore (tier : Option Tier) (rest : List Lexeme) : Prop :=
  ∀ l ∈ rest.head?, ∀ t c, (l.token, c) ∈ Tier.operators t → Tier.height tier < Tier.height (some t)

/-- A token is read as an operator of a tier if it is listed among them. -/
theorem connective?_eq_some_iff {t : Tier} {token : Token} {c : Connective} :
    t.connective? token = some c ↔ (token, c) ∈ t.operators := by
  unfold Tier.connective?
  fun_cases Connective.ofToken? token <;> cases t <;>
    simp_all [Tier.operators, Connective.tier, Option.filter, eq_comm]

/-- A token is read as a prefix operator if it is listed among them. -/
theorem unaryOp?_eq_some_iff {token : Token} {op : UnaryOp} :
    unaryOp? token = some op ↔ (token, op) ∈ unaryOperators := by
  fun_cases unaryOp? token <;> simp_all [unaryOperators, eq_comm]

/-! ## Where expressions end -/

/-- No token is an operator of two tiers. -/
theorem tier_eq_of_operators {t t' : Tier} {token : Token} {c c' : Connective}
    (h : (token, c) ∈ t.operators) (h' : (token, c') ∈ t'.operators) : t = t' := by
  rw [← connective?_eq_some_iff, Tier.connective?, Option.filter_eq_some_iff] at h h'
  obtain ⟨hc, ht⟩ := h
  obtain ⟨hc', ht'⟩ := h'
  cases hc.symm.trans hc'
  exact (of_decide_eq_true ht).symm.trans (of_decide_eq_true ht')

/-- Every tier is one step above the next tighter one. -/
theorem height_some_eq (t : Tier) : Tier.height (some t) = Tier.height t.tighter + 1 := by
  cases t <;> rfl

/-- Different tiers have different heights. -/
theorem height_some_inj {t t' : Tier} (h : Tier.height (some t) = Tier.height (some t')) :
    t = t' := by
  cases t <;> cases t' <;> first | rfl | exact absurd h (by decide)

/-- Every expression ends before the end of the lexemes. -/
theorem endsBefore_nil (tier : Option Tier) : EndsBefore tier [] := by
  intro l hl
  cases hl

/-- An operand ends before anything. -/
theorem endsBefore_none (rest : List Lexeme) : EndsBefore none rest := by
  intro l _ t c _
  rw [height_some_eq]
  exact Nat.succ_pos _

/-- Where an expression of a tier ends, one of the next tighter tier does. -/
theorem EndsBefore.tighter {t : Tier} {rest : List Lexeme} (h : EndsBefore (some t) rest) :
    EndsBefore t.tighter rest := by
  intro l hl t' c hc
  exact Nat.lt_trans (Tier.height_tighter_lt t) (h l hl t' c hc)

/-- An expression of the next tighter tier ends before an operator of a tier. -/
theorem endsBefore_operator {t : Tier} {l : Lexeme} {c : Connective} (ls : List Lexeme)
    (h : (l.token, c) ∈ t.operators) : EndsBefore t.tighter (l :: ls) := by
  intro m hm t' c' hc'
  cases hm
  obtain rfl := tier_eq_of_operators h hc'
  exact Tier.height_tighter_lt t

/-- Where an expression of the next tighter tier ends and no operator of the tier follows, one of
the tier ends. -/
theorem endsBefore_of_connective?_eq_none {t : Tier} {l : Lexeme} {ls : List Lexeme}
    (hnone : t.connective? l.token = none) (h : EndsBefore t.tighter (l :: ls)) :
    EndsBefore (some t) (l :: ls) := by
  intro m hm t' c hc
  have hlt := h m hm t' c hc
  have hle : Tier.height (some t) ≤ Tier.height (some t') := by
    rw [height_some_eq]
    exact hlt
  refine Nat.lt_of_le_of_ne hle fun heq => ?_
  obtain rfl := height_some_inj heq
  cases hm
  rw [connective?_eq_some_iff.2 hc] at hnone
  cases hnone

/-- No operator of a tier stands where an expression of the tier ends. -/
theorem EndsBefore.connective?_eq_none {t : Tier} {l : Lexeme} {ls : List Lexeme}
    (h : EndsBefore (some t) (l :: ls)) : t.connective? l.token = none := by
  cases hc : t.connective? l.token with
  | none => rfl
  | some c => exact absurd (h l rfl t c (connective?_eq_some_iff.1 hc)) (Nat.lt_irrefl _)

/-! ## Every derivation is read -/

/-- Where an expression of a tier ends, nothing more is read of it. -/
theorem chainOf_endsBefore {t : Tier} {rest : List Lexeme} (e : Expr)
    (h : EndsBefore (some t) rest) : chainOf t e rest = ⟨.ok e, rest⟩ := by
  cases rest with
  | nil => exact chainOf_nil t e
  | cons l ls => rw [chainOf_cons, h.connective?_eq_none]

/-- What is left to be read of an expression of a tier once its front part has been read. -/
def resumed : Option Tier → Expr → Phrase Expr
  | none, e => pure e
  | some t, e => chainOf t e

/-- The tier of the operands between operators of a tier. -/
def operandTier : Option Tier → Option Tier
  | none => none
  | some t => t.tighter

/-- Where an expression ends, there is nothing left to be read of it. -/
theorem resumed_endsBefore {tier : Option Tier} {rest : List Lexeme} (e : Expr)
    (h : EndsBefore tier rest) : resumed tier e rest = ⟨.ok e, rest⟩ := by
  cases tier with
  | none => rfl
  | some t => exact chainOf_endsBefore e h

/-- Where an expression ends, so do the operands of its tier. -/
theorem EndsBefore.operandTier {tier : Option Tier} {rest : List Lexeme}
    (h : EndsBefore tier rest) : EndsBefore (operandTier tier) rest := by
  cases tier with
  | none => exact h
  | some t => exact h.tighter

/-- A literal or a name is read as an operand. -/
theorem expressionOf_atom {l : Lexeme} {e : Expr} (rest : List Lexeme)
    (hunary : unaryOp? l.token = none) (hparen : l.token ≠ .sign .leftParen)
    (hatom : atom? l = some e) : expressionOf none (l :: rest) = ⟨.ok e, rest⟩ := by
  rw [expressionOf_none_cons, hunary]
  simp only [if_neg hparen, hatom]

/-- A group is closed by a closing parenthesis behind its inside. -/
theorem closeGroup_ok {l m : Lexeme} (e : Expr) (rest : List Lexeme)
    (h : m.token = .sign .rightParen) :
    closeGroup l.line ⟨.ok e, m :: rest⟩ = ⟨.ok (.group e l.line), rest⟩ := by
  show (Phrase.sign .rightParen .closingParen (m :: rest)).map _ = _
  rw [Phrase.sign, if_pos h]
  rfl

/-- An expression of any tier ends before a closing parenthesis. -/
theorem endsBefore_rightParen (tier : Option Tier) {m : Lexeme} (rest : List Lexeme)
    (h : m.token = .sign .rightParen) : EndsBefore tier (m :: rest) := by
  intro l hl t c hc
  cases hl
  rw [h] at hc
  cases t <;> simp [Tier.operators] at hc

/-- The front part of an expression is read by a derivation of the part, whatever follows that is
no operator of its operands. -/
theorem expressionOf_append {tier : Option Tier} {p : List Lexeme} {e : Expr}
    (h : Derives tier p e) {rest : List Lexeme} (hrest : EndsBefore (operandTier tier) rest) :
    expressionOf tier (p ++ rest) = resumed tier e rest := by
  -- The claim is about the operators that still follow, because the grammar recurses on the left
  -- operand of a chain and the reading on its tail.
  induction h generalizing rest with
  | @tighter t p e _ ih =>
    have hend : EndsBefore t.tighter rest := hrest
    have hread : expressionOf t.tighter (p ++ rest) = ⟨.ok e, rest⟩ := by
      rw [ih hend.operandTier, resumed_endsBefore e hend]
    rw [expressionOf_some, Phrase.bind_of_ok _ hread]
    rfl
  | @chain t p q left right l c _ hop _ ihleft ihright =>
    have hend : EndsBefore t.tighter rest := hrest
    have hfirst := ihleft (endsBefore_operator (q ++ rest) hop)
    have hsecond : expressionOf t.tighter (q ++ rest) = ⟨.ok right, rest⟩ := by
      rw [ihright hend.operandTier, resumed_endsBefore right hend]
    rw [List.append_assoc, List.cons_append, hfirst]
    show chainOf t left (l :: (q ++ rest)) = chainOf t (c.join left right l.line) rest
    rw [chainOf_cons, connective?_eq_some_iff.2 hop]
    exact Phrase.bind_of_ok _ hsecond
  | @unary l op p e hop _ ih =>
    rw [List.cons_append, expressionOf_none_cons, unaryOp?_eq_some_iff.2 hop]
    simp only [ih (endsBefore_none rest)]
    rfl
  | @group l m p e hopen _ hclose ih =>
    have hinner : expression (p ++ m :: rest) = ⟨.ok e, m :: rest⟩ := by
      have hend := endsBefore_rightParen (some .disjunction) rest hclose
      rw [expression, ih hend.operandTier, resumed_endsBefore e hend]
    have hunary : unaryOp? l.token = none := by
      rw [hopen]
      rfl
    rw [List.append_assoc, List.cons_append, expressionOf_none_cons, hunary]
    simp only [if_pos hopen, List.singleton_append, hinner]
    exact closeGroup_ok e rest hclose
  | number h => exact expressionOf_atom rest (by rw [h]; rfl) (by rw [h]; simp) (by simp [atom?, h])
  | text h => exact expressionOf_atom rest (by rw [h]; rfl) (by rw [h]; simp) (by simp [atom?, h])
  | bool h => exact expressionOf_atom rest (by rw [h]; rfl) (by rw [h]; simp) (by simp [atom?, h])
  | nil h => exact expressionOf_atom rest (by rw [h]; rfl) (by rw [h]; simp) (by simp [atom?, h])
  | name h => exact expressionOf_atom rest (by rw [h]; rfl) (by rw [h]; simp) (by simp [atom?, h])

/-! ## Every reading is a derivation -/

/-- A property of tiers that goes from the operands of every tier to the tier holds of all. -/
theorem tier_induction {P : Option Tier → Prop} (hnone : P none)
    (hsome : ∀ t : Tier, P t.tighter → P (some t)) (tier : Option Tier) : P tier := by
  have hproduct : P (some .product) := hsome .product hnone
  have hsum : P (some .sum) := hsome .sum hproduct
  have hcomparison : P (some .comparison) := hsome .comparison hsum
  have hequality : P (some .equality) := hsome .equality hcomparison
  have hconjunction : P (some .conjunction) := hsome .conjunction hequality
  have hdisjunction : P (some .disjunction) := hsome .disjunction hconjunction
  cases tier with
  | none => exact hnone
  | some t => cases t <;> assumption

/-- Whether every successful reading of a tier from these lexemes is a derivation. -/
def ReadsDerivations (tier : Option Tier) (ts : List Lexeme) : Prop :=
  ∀ e rest, expressionOf tier ts = ⟨.ok e, rest⟩ →
    ∃ p, ts = p ++ rest ∧ Derives tier p e ∧ EndsBefore tier rest

/-- A chain of operators is a derivation, if all operands on fewer lexemes are. -/
theorem derives_chainOf {t : Tier} {n : Nat}
    (hoperand : ∀ ts : List Lexeme, ts.length < n → ReadsDerivations t.tighter ts)
    {ts : List Lexeme} (hlength : ts.length ≤ n) {left e : Expr} {p rest : List Lexeme}
    (hleft : Derives (some t) p left) (hend : EndsBefore t.tighter ts)
    (hread : chainOf t left ts = ⟨.ok e, rest⟩) :
    ∃ q, ts = q ++ rest ∧ Derives (some t) (p ++ q) e ∧ EndsBefore (some t) rest := by
  -- Each round of the chain takes up an operator and an operand, so the lexemes get fewer.
  induction hm : ts.length using Nat.strongRecOn generalizing ts left p with
  | ind m ih =>
    cases ts with
    | nil =>
      rw [chainOf_nil] at hread
      cases hread
      exact ⟨[], rfl, by simpa using hleft, endsBefore_nil _⟩
    | cons l ls =>
      rw [chainOf_cons] at hread
      cases hc : t.connective? l.token with
      | none =>
        rw [hc] at hread
        cases hread
        exact ⟨[], rfl, by simpa using hleft, endsBefore_of_connective?_eq_none hc hend⟩
      | some c =>
        rw [hc] at hread
        obtain ⟨right, mid, hright, hmore⟩ := Phrase.bind_eq_ok_iff.1 hread
        have hls : ls.length < (l :: ls).length := Nat.lt_succ_self _
        obtain ⟨q, rfl, hq, hmid⟩ := hoperand ls (Nat.lt_of_lt_of_le hls hlength) right mid hright
        have hshort : mid.length < m := by
          subst hm
          simp only [List.length_cons, List.length_append]
          omega
        have hchain := Derives.chain hleft (connective?_eq_some_iff.1 hc) hq
        obtain ⟨q', rfl, hq', hrest⟩ :=
          ih mid.length hshort (by omega) hchain hmid hmore rfl
        refine ⟨l :: q ++ q', by simp, ?_, hrest⟩
        simpa using hq'

/-- A group is read if its inside is, up to a closing parenthesis. -/
theorem closeGroup_eq_ok_iff {line : Nat} {inner : Reading Expr} {e : Expr} {rest : List Lexeme} :
    closeGroup line inner = ⟨.ok e, rest⟩ ↔
      ∃ body m, inner = ⟨.ok body, m :: rest⟩ ∧ m.token = .sign .rightParen ∧
        e = .group body line := by
  obtain ⟨outcome, left⟩ := inner
  cases outcome with
  | error wanted => simp [closeGroup]
  | ok body =>
    show (Phrase.sign .rightParen .closingParen left).map _ = _ ↔ _
    rw [Reading.map_eq_ok_iff]
    constructor
    · rintro ⟨u, hsign, rfl⟩
      obtain ⟨m, hm, rfl⟩ := Phrase.sign_eq_ok_iff.1 hsign
      exact ⟨body, m, rfl, hm, rfl⟩
    · rintro ⟨_, m, heq, hm, rfl⟩
      cases heq
      exact ⟨(), Phrase.sign_eq_ok_iff.2 ⟨m, hm, rfl⟩, rfl⟩

/-- A literal or a name derives its node. -/
theorem derives_atom {l : Lexeme} {e : Expr} (h : atom? l = some e) : Derives none [l] e := by
  unfold atom? at h
  split at h <;> cases h
  · exact .number ‹_›
  · exact .text ‹_›
  · exact .bool ‹_›
  · exact .nil ‹_›
  · exact .name ‹_›

/-- An operand is a derivation, if all expressions on fewer lexemes are. -/
theorem derives_operand {ts : List Lexeme}
    (hshorter : ∀ us : List Lexeme, us.length < ts.length → ∀ tier, ReadsDerivations tier us) :
    ReadsDerivations none ts := by
  intro e rest hread
  cases ts with
  | nil =>
    rw [expressionOf_none_nil] at hread
    cases hread
  | cons l ls =>
    have hls : ls.length < (l :: ls).length := Nat.lt_succ_self _
    rw [expressionOf_none_cons] at hread
    cases hop : unaryOp? l.token with
    | some op =>
      rw [hop] at hread
      obtain ⟨inner, hinner, rfl⟩ := Reading.map_eq_ok_iff.1 hread
      obtain ⟨p, rfl, hp, hend⟩ := hshorter ls hls none inner rest hinner
      exact ⟨l :: p, rfl, .unary (unaryOp?_eq_some_iff.1 hop) hp, hend⟩
    | none =>
      rw [hop] at hread
      by_cases hopen : l.token = .sign .leftParen
      · simp only [if_pos hopen] at hread
        obtain ⟨body, m, hbody, hclose, rfl⟩ := closeGroup_eq_ok_iff.1 hread
        obtain ⟨p, rfl, hp, -⟩ := hshorter ls hls (some .disjunction) body (m :: rest) hbody
        exact ⟨l :: p ++ [m], by simp, .group hopen hp hclose, endsBefore_none rest⟩
      · simp only [if_neg hopen] at hread
        cases hatom : atom? l with
        | none =>
          rw [hatom] at hread
          cases hread
        | some a =>
          rw [hatom] at hread
          cases hread
          exact ⟨[l], rfl, derives_atom hatom, endsBefore_none _⟩

/-- Every successful reading of an expression is a derivation, by induction on the lexemes. -/
theorem readsDerivations (ts : List Lexeme) : ∀ tier, ReadsDerivations tier ts := by
  induction hn : ts.length using Nat.strongRecOn generalizing ts with
  | ind n ih =>
    have hshorter : ∀ us : List Lexeme, us.length < ts.length → ∀ tier, ReadsDerivations tier us :=
      fun us hus => ih us.length (hn ▸ hus) us rfl
    apply tier_induction
    · exact derives_operand hshorter
    · intro t htighter e rest hread
      rw [expressionOf_some] at hread
      obtain ⟨left, mid, hleft, hmore⟩ := Phrase.bind_eq_ok_iff.1 hread
      have hmid : mid.length < ts.length := by
        have hwithin := (within_expressionOf t.tighter ts).2 left
        rw [hleft] at hwithin
        exact hwithin rfl
      obtain ⟨p, rfl, hp, hend⟩ := htighter left mid hleft
      obtain ⟨q, rfl, hq, hrest⟩ :=
        derives_chainOf (fun us hus => hshorter us hus t.tighter) (Nat.le_of_lt hmid)
          (.tighter hp) hend hmore
      exact ⟨p ++ q, by simp, hq, hrest⟩

/-- An expression of a tier is read exactly if a front part derives it and the lexemes left do not
begin with an operator of the tier or of a tighter one. -/
theorem expressionOf_eq_ok_iff {tier : Option Tier} {ts rest : List Lexeme} {e : Expr} :
    expressionOf tier ts = ⟨.ok e, rest⟩ ↔
      ∃ p, ts = p ++ rest ∧ Derives tier p e ∧ EndsBefore tier rest := by
  constructor
  · exact readsDerivations ts tier e rest
  · rintro ⟨p, rfl, hp, hend⟩
    rw [expressionOf_append hp hend.operandTier, resumed_endsBefore e hend]

/-- Reading an expression is splitting off a front part that derives it, up to where it ends. -/
theorem expression_eq_ok_iff {ts rest : List Lexeme} {e : Expr} :
    expression ts = ⟨.ok e, rest⟩ ↔
      ∃ p, ts = p ++ rest ∧ Derives (some .disjunction) p e ∧ EndsBefore (some .disjunction) rest :=
  expressionOf_eq_ok_iff

/-! ## One tree for every expression -/

/-- The tokens with which an expression of a tier goes on: the operators of the tier and of the
tighter ones. -/
def Tier.continuations : Option Tier → List Token
  | some disjunction =>
    [.keyword .or, .keyword .and, .sign .equalEqual, .sign .bangEqual, .sign .less,
      .sign .lessEqual, .sign .greater, .sign .greaterEqual, .sign .plus, .sign .minus,
      .sign .star, .sign .slash]
  | some conjunction =>
    [.keyword .and, .sign .equalEqual, .sign .bangEqual, .sign .less, .sign .lessEqual,
      .sign .greater, .sign .greaterEqual, .sign .plus, .sign .minus, .sign .star, .sign .slash]
  | some equality =>
    [.sign .equalEqual, .sign .bangEqual, .sign .less, .sign .lessEqual, .sign .greater,
      .sign .greaterEqual, .sign .plus, .sign .minus, .sign .star, .sign .slash]
  | some comparison =>
    [.sign .less, .sign .lessEqual, .sign .greater, .sign .greaterEqual, .sign .plus,
      .sign .minus, .sign .star, .sign .slash]
  | some sum => [.sign .plus, .sign .minus, .sign .star, .sign .slash]
  | some product => [.sign .star, .sign .slash]
  | none => []

/-- An expression goes on with the operators of its tier or of a tighter one. -/
theorem continuations_some (t : Tier) :
    Tier.continuations (some t) = t.operators.map Prod.fst ++ Tier.continuations t.tighter := by
  cases t <;> rfl

/-- An expression ends before a lexeme that it does not go on with. -/
theorem endsBefore_iff {tier : Option Tier} {rest : List Lexeme} :
    EndsBefore tier rest ↔ ∀ l ∈ rest.head?, l.token ∉ Tier.continuations tier := by
  cases rest with
  | nil => simp [endsBefore_nil]
  | cons l ls =>
    suffices h : EndsBefore tier (l :: ls) ↔ l.token ∉ Tier.continuations tier by simpa using h
    induction tier using tier_induction with
    | hnone => simp [endsBefore_none, Tier.continuations]
    | hsome t ih =>
      rw [continuations_some, List.mem_append, not_or, ← ih]
      constructor
      · intro h
        refine ⟨fun hmem => ?_, h.tighter⟩
        obtain ⟨⟨token, c⟩, hc, rfl⟩ := List.mem_map.1 hmem
        have hsome := connective?_eq_some_iff.2 hc
        rw [h.connective?_eq_none] at hsome
        cases hsome
      · rintro ⟨hother, h⟩
        refine endsBefore_of_connective?_eq_none (Option.eq_none_iff_forall_ne_some.2 ?_) h
        intro c hc
        exact hother (List.mem_map.2 ⟨_, connective?_eq_some_iff.1 hc, rfl⟩)

/-- Lexemes derive at most one tree of a tier, since the reading finds every tree they derive. -/
theorem Derives.unique {tier : Option Tier} {p : List Lexeme} {e e' : Expr}
    (h : Derives tier p e) (h' : Derives tier p e') : e = e' := by
  have hread : expressionOf tier p = ⟨.ok e, []⟩ :=
    expressionOf_eq_ok_iff.2 ⟨p, by simp, h, endsBefore_nil tier⟩
  have hread' : expressionOf tier p = ⟨.ok e', []⟩ :=
    expressionOf_eq_ok_iff.2 ⟨p, by simp, h', endsBefore_nil tier⟩
  cases hread.symm.trans hread'
  rfl

/-- Reading is sound, complete and without ambiguity. An expression of a tier is read exactly if a
front part of the lexemes derives it and what is left does not begin with an operator of the tier
or of a tighter one; and no lexemes derive two trees. -/
theorem expressions_read_unambiguously :
    (∀ (ts rest : List Lexeme) (e : Expr),
      expression ts = ⟨.ok e, rest⟩ ↔
        ∃ p, ts = p ++ rest ∧ Derives (some .disjunction) p e ∧
          ∀ l ∈ rest.head?, l.token ∉ Tier.continuations (some .disjunction)) ∧
    (∀ (t : Tier) (ts rest : List Lexeme) (e : Expr),
      expressionOf (some t) ts = ⟨.ok e, rest⟩ ↔
        ∃ p, ts = p ++ rest ∧ Derives (some t) p e ∧
          ∀ l ∈ rest.head?, l.token ∉ Tier.continuations (some t)) ∧
    ∀ (t : Tier) (p : List Lexeme) (e e' : Expr),
      Derives (some t) p e → Derives (some t) p e' → e = e' := by
  have htiers (t : Tier) (ts rest : List Lexeme) (e : Expr) :
      expressionOf (some t) ts = ⟨.ok e, rest⟩ ↔
        ∃ p, ts = p ++ rest ∧ Derives (some t) p e ∧
          ∀ l ∈ rest.head?, l.token ∉ Tier.continuations (some t) := by
    rw [expressionOf_eq_ok_iff]
    simp only [endsBefore_iff]
  exact ⟨htiers .disjunction, htiers, fun _ _ _ _ h h' => h.unique h'⟩

/-- The sum `A - B * -C` before a comparison, which a sum leaves to the tier above it. -/
theorem expressions_read_unambiguously_sum :
    let front : List Lexeme :=
      [⟨.name "A", "A", 1⟩, ⟨.sign .minus, "-", 2⟩, ⟨.name "B", "B", 3⟩, ⟨.sign .star, "*", 4⟩,
        ⟨.sign .minus, "-", 5⟩, ⟨.name "C", "C", 6⟩]
    let rest : List Lexeme := [⟨.sign .less, "<", 7⟩, ⟨.name "D", "D", 8⟩]
    let tree : Expr :=
      .binary .sub (.name "A" 1) (.binary .mul (.name "B" 3) (.unary .negate (.name "C" 6) 5) 4) 2
    expressionOf (some .sum) (front ++ rest) = ⟨.ok tree, rest⟩ ∧
      Derives (some .sum) front tree ∧ ∀ e, Derives (some .sum) front e → e = tree := by
  intro front rest tree
  obtain ⟨-, hread, hunique⟩ := expressions_read_unambiguously
  have hsum : expressionOf (some .sum) (front ++ rest) = ⟨.ok tree, rest⟩ := by cbv
  obtain ⟨p, hp, hderives, -⟩ := (hread .sum (front ++ rest) rest tree).1 hsum
  obtain rfl := List.append_cancel_right hp
  exact ⟨hsum, hderives, fun e he => hunique .sum front e tree he hderives⟩

end Watershed.Grammar
