import Watershed.Proofs.Grammar.Items

/-!
# Expressions that break off

The counterpart of the grammar of expressions for readings that fail. A broken expression is what
was read of an expression before a lexeme that cannot go on with it. Reading an expression of a
tier fails exactly if a front part is broken at the first lexeme left
(`expressionOf_eq_error_iff`), and every broken expression is the beginning of a whole one
(`Breaks.completed`). So an expression is given up neither too early nor too late.
-/

set_option autoImplicit false

namespace Watershed.Grammar

/-! ## Failed readings -/

namespace Reading

variable {α β : Type}

/-- Changing the value of a reading leaves its failures as they are. -/
theorem map_eq_error_iff {f : α → β} {r : Reading α} {wanted : Expectation}
    {rest : List Lexeme} : r.map f = ⟨.error wanted, rest⟩ ↔ r = ⟨.error wanted, rest⟩ := by
  obtain ⟨outcome, left⟩ := r
  cases outcome with
  | ok a => simp [map, Except.map]
  | error w => simp [map, Except.map]

end Reading

namespace Phrase

variable {α β : Type}

/-- If the first of two phrases fails, so do both in a row. -/
theorem bind_of_error {p : Phrase α} {ts mid : List Lexeme} {wanted : Expectation}
    (f : α → Phrase β) (h : p ts = ⟨.error wanted, mid⟩) :
    (p >>= f) ts = ⟨.error wanted, mid⟩ := by
  simp only [bind, h]

/-- Two phrases in a row fail because the first fails, or because the second fails behind it. -/
theorem bind_eq_error_iff {p : Phrase α} {f : α → Phrase β} {ts rest : List Lexeme}
    {wanted : Expectation} :
    (p >>= f) ts = ⟨.error wanted, rest⟩ ↔
      p ts = ⟨.error wanted, rest⟩ ∨
        ∃ a mid, p ts = ⟨.ok a, mid⟩ ∧ f a mid = ⟨.error wanted, rest⟩ := by
  cases hread : p ts with
  | mk outcome mid =>
    cases outcome with
    | ok a =>
      rw [bind_of_ok f hread]
      constructor
      · intro h
        exact .inr ⟨a, mid, rfl, h⟩
      · rintro (h | ⟨_, _, heq, h⟩)
        · cases h
        · cases heq
          exact h
    | error w => simp [bind_of_error f hread]

/-- A phrase that reads nothing does not fail. -/
theorem pure_ne_error {a : α} {ts rest : List Lexeme} {wanted : Expectation} :
    (pure a : Phrase α) ts ≠ ⟨.error wanted, rest⟩ := by
  intro h
  cases h

/-- Reading a name fails in front of anything but a name, and reads nothing. -/
theorem name_eq_error_iff {wanted w : Expectation} {ts rest : List Lexeme} :
    name wanted ts = ⟨.error w, rest⟩ ↔
      w = wanted ∧ rest = ts ∧ ∀ l ∈ ts.head?, ∀ n, l.token ≠ .name n := by
  fun_cases name wanted ts with
  | case1 => simp [eq_comm]
  | case2 l ls n hn => simp [hn]
  | case3 l ls hother =>
    have hname : ∀ n, l.token ≠ .name n := hother
    simp [hname, eq_comm]

/-- Reading a sign fails in front of anything but this sign, and reads nothing. -/
theorem sign_eq_error_iff {s : Sign} {wanted w : Expectation} {ts rest : List Lexeme} :
    sign s wanted ts = ⟨.error w, rest⟩ ↔
      w = wanted ∧ rest = ts ∧ ∀ l ∈ ts.head?, l.token ≠ .sign s := by
  fun_cases sign s wanted ts with
  | case1 => simp [eq_comm]
  | case2 l ls h => simp [h]
  | case3 l ls h => simp [h, eq_comm]

end Phrase

/-! ## The grammar of broken expressions -/

/-- The lexemes read of an expression of a tier that breaks off after them, what is wanted there,
and the lexeme found instead, if there is one. -/
inductive Breaks : Option Tier → List Lexeme → Expectation → Option Lexeme → Prop
  | operand {found : Option Lexeme} (h : ∀ l ∈ found, beginsExpression l.token = false) :
      Breaks none [] .expression found
  | unary {l : Lexeme} {op : UnaryOp} {p : List Lexeme} {wanted : Expectation}
      {found : Option Lexeme} (operator : (l.token, op) ∈ unaryOperators)
      (operand : Breaks none p wanted found) : Breaks none (l :: p) wanted found
  | inside {l : Lexeme} {p : List Lexeme} {wanted : Expectation} {found : Option Lexeme}
      (opening : l.token = .sign .leftParen)
      (inner : Breaks (some .disjunction) p wanted found) : Breaks none (l :: p) wanted found
  | unclosed {l : Lexeme} {p : List Lexeme} {e : Expr} {found : Option Lexeme}
      (opening : l.token = .sign .leftParen) (inner : Derives (some .disjunction) p e)
      (ends : EndsBefore (some .disjunction) found.toList)
      (h : ∀ m ∈ found, m.token ≠ .sign .rightParen) : Breaks none (l :: p) .closingParen found
  | tighter {t : Tier} {p : List Lexeme} {wanted : Expectation} {found : Option Lexeme}
      (inner : Breaks t.tighter p wanted found) : Breaks (some t) p wanted found
  | chain {t : Tier} {p q : List Lexeme} {left : Expr} {l : Lexeme} {c : Connective}
      {wanted : Expectation} {found : Option Lexeme} (first : Derives (some t) p left)
      (operator : (l.token, c) ∈ t.operators) (second : Breaks t.tighter q wanted found) :
      Breaks (some t) (p ++ l :: q) wanted found

/-- Whether an expression ends before some lexemes depends on the first of them alone. -/
theorem endsBefore_congr {tier : Option Tier} {rest rest' : List Lexeme}
    (hhead : rest.head? = rest'.head?) : EndsBefore tier rest ↔ EndsBefore tier rest' := by
  unfold EndsBefore
  rw [hhead]

/-- Whether an expression ends before some lexemes can be seen from the first of them alone. -/
theorem endsBefore_head? {tier : Option Tier} {rest : List Lexeme} :
    EndsBefore tier rest.head?.toList ↔ EndsBefore tier rest := by
  apply endsBefore_congr
  cases rest <;> rfl

/-! ## Every broken expression fails to be read -/

/-- A lexeme begins no expression if it is no prefix operator, no parenthesis and no atom. -/
theorem beginsExpression_eq_false_iff {l : Lexeme} :
    beginsExpression l.token = false ↔
      unaryOp? l.token = none ∧ l.token ≠ .sign .leftParen ∧ atom? l = none := by
  unfold atom?
  fun_cases beginsExpression l.token <;> simp_all [unaryOp?]

/-- In front of a lexeme that begins no expression an operand is wanted, and nothing is read. -/
theorem expressionOf_none_of_not_begins {rest : List Lexeme}
    (h : ∀ l ∈ rest.head?, beginsExpression l.token = false) :
    expressionOf none rest = ⟨.error .expression, rest⟩ := by
  cases rest with
  | nil => exact expressionOf_none_nil
  | cons l ls =>
    obtain ⟨hunary, hparen, hatom⟩ := beginsExpression_eq_false_iff.1 (h l rfl)
    rw [expressionOf_none_cons, hunary]
    simp only [if_neg hparen, hatom]

/-- Closing a group fails because its inside failed, or for want of the closing parenthesis. -/
theorem closeGroup_eq_error_iff {line : Nat} {inner : Reading Expr} {wanted : Expectation}
    {rest : List Lexeme} :
    closeGroup line inner = ⟨.error wanted, rest⟩ ↔
      inner = ⟨.error wanted, rest⟩ ∨
        ∃ body, inner = ⟨.ok body, rest⟩ ∧ wanted = .closingParen ∧
          ∀ m ∈ rest.head?, m.token ≠ .sign .rightParen := by
  obtain ⟨outcome, left⟩ := inner
  cases outcome with
  | error w => simp [closeGroup]
  | ok body =>
    show (Phrase.sign .rightParen .closingParen left).map _ = _ ↔ _
    rw [Reading.map_eq_error_iff, Phrase.sign_eq_error_iff]
    constructor
    · rintro ⟨rfl, rfl, hother⟩
      exact .inr ⟨body, rfl, rfl, hother⟩
    · rintro (h | ⟨_, heq, rfl, hother⟩)
      · cases h
      · cases heq
        exact ⟨rfl, rfl, hother⟩

/-- A broken expression in front of the lexeme that breaks it is read up to this lexeme, where
reading fails. -/
theorem expressionOf_of_breaks {tier : Option Tier} {p : List Lexeme} {wanted : Expectation}
    {found : Option Lexeme} (h : Breaks tier p wanted found) {rest : List Lexeme}
    (hrest : rest.head? = found) : expressionOf tier (p ++ rest) = ⟨.error wanted, rest⟩ := by
  induction h with
  | operand hbegins =>
    rw [← hrest] at hbegins
    exact expressionOf_none_of_not_begins hbegins
  | unary hop _ ih =>
    rw [List.cons_append, expressionOf_none_cons, unaryOp?_eq_some_iff.2 hop]
    exact Reading.map_eq_error_iff.2 (ih hrest)
  | @inside l p wanted found hopen _ ih =>
    have hunary : unaryOp? l.token = none := by
      rw [hopen]
      rfl
    rw [List.cons_append, expressionOf_none_cons, hunary]
    simp only [if_pos hopen]
    exact closeGroup_eq_error_iff.2 (.inl (ih hrest))
  | @unclosed l p e found hopen hinner hends hother =>
    have hunary : unaryOp? l.token = none := by
      rw [hopen]
      rfl
    rw [← hrest] at hends hother
    have hread : expression (p ++ rest) = ⟨.ok e, rest⟩ :=
      expression_eq_ok_iff.2 ⟨p, rfl, hinner, endsBefore_head?.1 hends⟩
    rw [List.cons_append, expressionOf_none_cons, hunary]
    simp only [if_pos hopen]
    exact closeGroup_eq_error_iff.2 (.inr ⟨e, hread, rfl, hother⟩)
  | tighter _ ih =>
    rw [expressionOf_some]
    exact Phrase.bind_of_error _ (ih hrest)
  | @chain t p q left l c wanted found hfirst hop _ ih =>
    have hread := expressionOf_append hfirst (endsBefore_operator (q ++ rest) hop)
    rw [List.append_assoc, List.cons_append, hread]
    show chainOf t left (l :: (q ++ rest)) = _
    rw [chainOf_cons, connective?_eq_some_iff.2 hop]
    exact Phrase.bind_of_error _ (ih hrest)

/-! ## Every failed reading is a broken expression -/

/-- Whether every failed reading of a tier from these lexemes is a broken expression. -/
def FailsBroken (tier : Option Tier) (ts : List Lexeme) : Prop :=
  ∀ wanted rest, expressionOf tier ts = ⟨.error wanted, rest⟩ →
    ∃ p, ts = p ++ rest ∧ Breaks tier p wanted rest.head?

/-- A chain of operators fails where the right operand of one of them does, and is broken there. -/
theorem breaks_chainOf {t : Tier} {n : Nat}
    (hoperand : ∀ ts : List Lexeme, ts.length < n → FailsBroken t.tighter ts)
    {ts : List Lexeme} (hlength : ts.length ≤ n) {left : Expr} {p rest : List Lexeme}
    {wanted : Expectation} (hleft : Derives (some t) p left)
    (hread : chainOf t left ts = ⟨.error wanted, rest⟩) :
    ∃ q, ts = q ++ rest ∧ Breaks (some t) (p ++ q) wanted rest.head? := by
  -- As for chains that are read: each round takes up an operator and an operand.
  induction hm : ts.length using Nat.strongRecOn generalizing ts left p with
  | ind m ih =>
    cases ts with
    | nil =>
      rw [chainOf_nil] at hread
      cases hread
    | cons l ls =>
      rw [chainOf_cons] at hread
      cases hc : t.connective? l.token with
      | none =>
        rw [hc] at hread
        cases hread
      | some c =>
        rw [hc] at hread
        have hop := connective?_eq_some_iff.1 hc
        have hls : ls.length < n := Nat.lt_of_lt_of_le (Nat.lt_succ_self _) hlength
        rcases Phrase.bind_eq_error_iff.1 hread with hright | ⟨right, mid, hright, hmore⟩
        · obtain ⟨q, rfl, hq⟩ := hoperand ls hls wanted rest hright
          exact ⟨l :: q, rfl, .chain hleft hop hq⟩
        · obtain ⟨q, rfl, hq, -⟩ := expressionOf_eq_ok_iff.1 hright
          have hshort : mid.length < m := by
            subst hm
            simp only [List.length_cons, List.length_append]
            omega
          obtain ⟨q', rfl, hq'⟩ :=
            ih mid.length hshort (by omega) (Derives.chain hleft hop hq) hmore rfl
          refine ⟨l :: q ++ q', by simp, ?_⟩
          simpa using hq'

/-- An operand that fails is broken, if all failures on fewer lexemes are. -/
theorem breaks_operand {ts : List Lexeme}
    (hshorter : ∀ us : List Lexeme, us.length < ts.length → ∀ tier, FailsBroken tier us) :
    FailsBroken none ts := by
  intro wanted rest hread
  cases ts with
  | nil =>
    rw [expressionOf_none_nil] at hread
    cases hread
    exact ⟨[], rfl, .operand fun l hl => by cases hl⟩
  | cons l ls =>
    have hls : ls.length < (l :: ls).length := Nat.lt_succ_self _
    rw [expressionOf_none_cons] at hread
    cases hop : unaryOp? l.token with
    | some op =>
      rw [hop] at hread
      obtain ⟨p, rfl, hp⟩ := hshorter ls hls none wanted rest (Reading.map_eq_error_iff.1 hread)
      exact ⟨l :: p, rfl, .unary (unaryOp?_eq_some_iff.1 hop) hp⟩
    | none =>
      rw [hop] at hread
      by_cases hopen : l.token = .sign .leftParen
      · simp only [if_pos hopen] at hread
        rcases closeGroup_eq_error_iff.1 hread with hinner | ⟨body, hbody, rfl, hother⟩
        · obtain ⟨p, rfl, hp⟩ := hshorter ls hls (some .disjunction) wanted rest hinner
          exact ⟨l :: p, rfl, .inside hopen hp⟩
        · obtain ⟨p, rfl, hp, hend⟩ := expression_eq_ok_iff.1 hbody
          exact ⟨l :: p, rfl, .unclosed hopen hp (endsBefore_head?.2 hend) hother⟩
      · simp only [if_neg hopen] at hread
        cases hatom : atom? l with
        | some a =>
          rw [hatom] at hread
          cases hread
        | none =>
          rw [hatom] at hread
          cases hread
          refine ⟨[], rfl, .operand fun k hk => ?_⟩
          cases hk
          exact beginsExpression_eq_false_iff.2 ⟨hop, hopen, hatom⟩

/-- Every failed reading of an expression is a broken expression, by induction on the lexemes. -/
theorem failsBroken (ts : List Lexeme) : ∀ tier, FailsBroken tier ts := by
  induction hn : ts.length using Nat.strongRecOn generalizing ts with
  | ind n ih =>
    have hshorter : ∀ us : List Lexeme, us.length < ts.length → ∀ tier, FailsBroken tier us :=
      fun us hus => ih us.length (hn ▸ hus) us rfl
    apply tier_induction
    · exact breaks_operand hshorter
    · intro t htighter wanted rest hread
      rw [expressionOf_some] at hread
      rcases Phrase.bind_eq_error_iff.1 hread with hleft | ⟨left, mid, hleft, hmore⟩
      · obtain ⟨p, rfl, hp⟩ := htighter wanted rest hleft
        exact ⟨p, rfl, .tighter hp⟩
      · have hmid : mid.length < ts.length := by
          have hwithin := (within_expressionOf t.tighter ts).2 left
          rw [hleft] at hwithin
          exact hwithin rfl
        obtain ⟨p, rfl, hp, -⟩ := expressionOf_eq_ok_iff.1 hleft
        obtain ⟨q, rfl, hq⟩ :=
          breaks_chainOf (fun us hus => hshorter us hus t.tighter) (Nat.le_of_lt hmid)
            (.tighter hp) hmore
        exact ⟨p ++ q, by simp, hq⟩

/-- Reading an expression of a tier fails exactly if a front part is broken at what is left. -/
theorem expressionOf_eq_error_iff {tier : Option Tier} {ts rest : List Lexeme}
    {wanted : Expectation} :
    expressionOf tier ts = ⟨.error wanted, rest⟩ ↔
      ∃ p, ts = p ++ rest ∧ Breaks tier p wanted rest.head? := by
  constructor
  · exact failsBroken ts tier wanted rest
  · rintro ⟨p, rfl, hp⟩
    exact expressionOf_of_breaks hp rfl

/-! ## Every broken expression can be completed -/

/-- A name, to go on with where an operand or a river is wanted. -/
def aName : Lexeme :=
  ⟨.name "x", "x", 0⟩

/-- A lexeme of a sign, to go on with where the sign is wanted. -/
def aSign (s : Sign) : Lexeme :=
  ⟨.sign s, "", 0⟩

/-- A name is an expression of every tier. -/
theorem derives_aName (tier : Option Tier) : Derives tier [aName] (.name "x" 0) := by
  apply tier_induction (P := fun tier => Derives tier [aName] (.name "x" 0))
  · exact .name rfl
  · intro t h
    exact .tighter h

/-- Every broken expression can be completed to a whole one. -/
theorem Breaks.completed {tier : Option Tier} {p : List Lexeme} {wanted : Expectation}
    {found : Option Lexeme} (h : Breaks tier p wanted found) :
    ∃ q e, Derives tier (p ++ q) e := by
  induction h with
  | operand => exact ⟨[aName], _, derives_aName none⟩
  | unary hop _ ih =>
    obtain ⟨q, e, hq⟩ := ih
    exact ⟨q, _, .unary hop hq⟩
  | inside hopen _ ih =>
    obtain ⟨q, e, hq⟩ := ih
    have hgroup := Derives.group (m := aSign .rightParen) hopen hq rfl
    exact ⟨q ++ [aSign .rightParen], _, by simpa using hgroup⟩
  | unclosed hopen hinner =>
    exact ⟨[aSign .rightParen], _, .group hopen hinner rfl⟩
  | tighter _ ih =>
    obtain ⟨q, e, hq⟩ := ih
    exact ⟨q, e, .tighter hq⟩
  | chain hfirst hop _ ih =>
    obtain ⟨q, e, hq⟩ := ih
    exact ⟨q, _, by simpa using Derives.chain hfirst hop hq⟩

/-! ## No expression holds a terminator, whole or broken -/

/-- Lexemes among which no terminator stands. -/
def WithoutTerminators (ts : List Lexeme) : Prop :=
  ∀ l ∈ ts, l.token.isTerminator = false

/-- There is no terminator among no lexemes. -/
theorem withoutTerminators_nil : WithoutTerminators [] := by
  intro l hl
  cases hl

/-- A terminator stands among some lexemes if it is the first or stands among the others. -/
theorem withoutTerminators_cons {l : Lexeme} {ts : List Lexeme} :
    WithoutTerminators (l :: ts) ↔ l.token.isTerminator = false ∧ WithoutTerminators ts := by
  simp [WithoutTerminators]

/-- No terminator stands among the lexemes of two lists if it stands in neither. -/
theorem withoutTerminators_append {ts us : List Lexeme} :
    WithoutTerminators (ts ++ us) ↔ WithoutTerminators ts ∧ WithoutTerminators us := by
  simp [WithoutTerminators, or_imp, forall_and]

/-- No operator is a terminator. -/
theorem isTerminator_of_operator {t : Tier} {token : Token} {c : Connective}
    (h : (token, c) ∈ t.operators) : token.isTerminator = false := by
  cases t <;> simp only [Tier.operators, List.mem_cons, Prod.mk.injEq, List.not_mem_nil,
    or_false] at h <;> grind [Token.isTerminator]

/-- No prefix operator is a terminator. -/
theorem isTerminator_of_unaryOperator {token : Token} {op : UnaryOp}
    (h : (token, op) ∈ unaryOperators) : token.isTerminator = false := by
  simp only [unaryOperators, List.mem_cons, Prod.mk.injEq, List.not_mem_nil, or_false] at h
  rcases h with ⟨rfl, -⟩ | ⟨rfl, -⟩ <;> rfl

/-- No terminator stands in an expression. -/
theorem Derives.withoutTerminators {tier : Option Tier} {p : List Lexeme} {e : Expr}
    (h : Derives tier p e) : WithoutTerminators p := by
  induction h with
  | tighter _ ih => exact ih
  | chain _ hop _ ihleft ihright =>
    have hl := isTerminator_of_operator hop
    exact withoutTerminators_append.2 ⟨ihleft, withoutTerminators_cons.2 ⟨hl, ihright⟩⟩
  | unary hop _ ih =>
    exact withoutTerminators_cons.2 ⟨isTerminator_of_unaryOperator hop, ih⟩
  | group hopen _ hclose ih =>
    simp [withoutTerminators_cons, withoutTerminators_append, withoutTerminators_nil, hopen,
      hclose, ih, Token.isTerminator]
  | number h => simp [withoutTerminators_cons, withoutTerminators_nil, h, Token.isTerminator]
  | text h => simp [withoutTerminators_cons, withoutTerminators_nil, h, Token.isTerminator]
  | bool h => simp [withoutTerminators_cons, withoutTerminators_nil, h, Token.isTerminator]
  | nil h => simp [withoutTerminators_cons, withoutTerminators_nil, h, Token.isTerminator]
  | name h => simp [withoutTerminators_cons, withoutTerminators_nil, h, Token.isTerminator]

/-- No terminator stands in a broken expression. -/
theorem Breaks.withoutTerminators {tier : Option Tier} {p : List Lexeme} {wanted : Expectation}
    {found : Option Lexeme} (h : Breaks tier p wanted found) : WithoutTerminators p := by
  induction h with
  | operand => exact withoutTerminators_nil
  | unary hop _ ih =>
    exact withoutTerminators_cons.2 ⟨isTerminator_of_unaryOperator hop, ih⟩
  | inside hopen _ ih => simp [withoutTerminators_cons, hopen, ih, Token.isTerminator]
  | unclosed hopen hinner =>
    simp [withoutTerminators_cons, hopen, hinner.withoutTerminators, Token.isTerminator]
  | tighter _ ih => exact ih
  | chain hfirst hop _ ih =>
    have hl := isTerminator_of_operator hop
    exact withoutTerminators_append.2
      ⟨hfirst.withoutTerminators, withoutTerminators_cons.2 ⟨hl, ih⟩⟩

end Watershed.Grammar
