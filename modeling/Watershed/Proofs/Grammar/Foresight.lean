import Watershed.Proofs.Grammar.Breakdown

/-!
# Reading with one lexeme of foresight

What a phrase makes of the lexemes it reads is settled by them and the first lexeme it leaves; what
comes after that one does not matter, whether the reading succeeds or fails. Nor does a phrase read
past a terminator. Both facts go from phrases to phrases built of them, up to the simple
statements. Where a simple statement fails, what was read of it is the beginning of a whole one.
-/

set_option autoImplicit false

namespace Watershed.Grammar

namespace Phrase

variable {α β : Type}

/-! ## Foresight of phrases -/

/-- A phrase looks one lexeme ahead at these lexemes if what it reads of them holds no terminator
and is read in the same way before all lexemes that begin like the ones left. -/
def LooksOneAheadAt (p : Phrase α) (ts : List Lexeme) : Prop :=
  ∃ front, ts = front ++ (p ts).rest ∧ WithoutTerminators front ∧
    ∀ rest, rest.head? = (p ts).rest.head? → p (front ++ rest) = ⟨(p ts).outcome, rest⟩

/-- A phrase looks one lexeme ahead if it does so at all lexemes. -/
def LooksOneAhead (p : Phrase α) : Prop :=
  ∀ ts, p.LooksOneAheadAt ts

/-- A phrase that reads nothing here looks one lexeme ahead if its outcome hangs on the first
lexeme alone. -/
theorem looksOneAheadAt_of_head {p : Phrase α} {ts : List Lexeme} {o : Except Expectation α}
    (h : ∀ rest, rest.head? = ts.head? → p rest = ⟨o, rest⟩) : p.LooksOneAheadAt ts := by
  have hread : p ts = ⟨o, ts⟩ := h ts rfl
  refine ⟨[], ?_, withoutTerminators_nil, ?_⟩
  · rw [hread]
    rfl
  · intro rest hhead
    rw [hread] at hhead ⊢
    exact h rest hhead

/-- A phrase that reads a lexeme and goes on as another one does. -/
theorem looksOneAheadAt_cons {p q : Phrase α} {l : Lexeme} {ls : List Lexeme}
    (hl : l.token.isTerminator = false) (hstep : ∀ us, p (l :: us) = q us)
    (hq : q.LooksOneAheadAt ls) : p.LooksOneAheadAt (l :: ls) := by
  obtain ⟨front, hsplit, hfront, hsettled⟩ := hq
  unfold LooksOneAheadAt
  rw [hstep]
  refine ⟨l :: front, congrArg (l :: ·) hsplit, withoutTerminators_cons.2 ⟨hl, hfront⟩, ?_⟩
  intro rest hhead
  rw [List.cons_append, hstep, hsettled rest hhead]

/-- A phrase that reads nothing looks one lexeme ahead. -/
theorem looksOneAhead_pure (a : α) : LooksOneAhead (pure a : Phrase α) :=
  fun _ => looksOneAheadAt_of_head fun _ _ => rfl

/-- What begins like another rest still does so behind the same front part. -/
theorem head?_append_congr {rest rest' : List Lexeme} (front : List Lexeme)
    (h : rest.head? = rest'.head?) : (front ++ rest).head? = (front ++ rest').head? := by
  rw [List.head?_append, List.head?_append, h]

/-- Two phrases in a row look one lexeme ahead if the first does, and the second where the first
stops. -/
theorem looksOneAheadAt_bind {p : Phrase α} {f : α → Phrase β} {ts : List Lexeme}
    (hp : p.LooksOneAheadAt ts)
    (hf : ∀ a mid, p ts = ⟨.ok a, mid⟩ → (f a).LooksOneAheadAt mid) :
    LooksOneAheadAt (p >>= f) ts := by
  obtain ⟨front, hsplit, hfront, hsettled⟩ := hp
  unfold LooksOneAheadAt
  cases hread : p ts with
  | mk outcome mid =>
    rw [hread] at hsplit hsettled
    cases outcome with
    | error wanted =>
      rw [bind_of_error f hread]
      exact ⟨front, hsplit, hfront, fun rest hhead => bind_of_error f (hsettled rest hhead)⟩
    | ok a =>
      rw [bind_of_ok f hread]
      obtain ⟨front', hsplit', hfront', hsettled'⟩ := hf a mid hread
      refine ⟨front ++ front', ?_, withoutTerminators_append.2 ⟨hfront, hfront'⟩, ?_⟩
      · rw [List.append_assoc, ← hsplit']
        exact hsplit
      · -- The second part begins as before, so the first part reads what it read before.
        intro rest hhead
        have hsame : (front' ++ rest).head? = mid.head? := by
          rw [hsplit']
          exact head?_append_congr front' hhead
        rw [List.append_assoc, bind_of_ok f (hsettled (front' ++ rest) hsame)]
        exact hsettled' rest hhead

/-- Two phrases in a row look one lexeme ahead if both do everywhere. -/
theorem looksOneAhead_bind {p : Phrase α} {f : α → Phrase β} (hp : p.LooksOneAhead)
    (hf : ∀ a, (f a).LooksOneAhead) : LooksOneAhead (p >>= f) :=
  fun ts => looksOneAheadAt_bind (hp ts) fun a mid _ => hf a mid

/-- Changing the value of a phrase does not change how far it looks ahead. -/
theorem looksOneAheadAt_map {p : Phrase α} {ts : List Lexeme} (f : α → β)
    (hp : p.LooksOneAheadAt ts) : LooksOneAheadAt (fun us => (p us).map f : Phrase β) ts := by
  obtain ⟨front, hsplit, hfront, hsettled⟩ := hp
  refine ⟨front, hsplit, hfront, fun rest hhead => ?_⟩
  show (p (front ++ rest)).map f = _
  rw [hsettled rest hhead]
  rfl

/-- Reading a name looks one lexeme ahead. -/
theorem looksOneAhead_name (wanted : Expectation) : (name wanted).LooksOneAhead := by
  intro ts
  cases hread : name wanted ts with
  | mk outcome rest =>
    cases outcome with
    | ok n =>
      obtain ⟨l, hl, rfl⟩ := name_eq_ok_iff.1 hread
      refine looksOneAheadAt_cons (by rw [hl]; rfl) ?_ (looksOneAhead_pure n rest)
      intro us
      exact name_eq_ok_iff.2 ⟨l, hl, rfl⟩
    | error w =>
      obtain ⟨rfl, rfl, hother⟩ := name_eq_error_iff.1 hread
      refine looksOneAheadAt_of_head (o := .error w) fun us hhead => ?_
      exact name_eq_error_iff.2 ⟨rfl, rfl, hhead ▸ hother⟩

/-- Reading a sign looks one lexeme ahead, if the sign is no terminator. -/
theorem looksOneAhead_sign {s : Sign} (hs : s ≠ .semicolon) (wanted : Expectation) :
    (sign s wanted).LooksOneAhead := by
  intro ts
  cases hread : sign s wanted ts with
  | mk outcome rest =>
    cases outcome with
    | ok u =>
      obtain ⟨l, hl, rfl⟩ := sign_eq_ok_iff.1 hread
      have hterm : l.token.isTerminator = false := by
        rw [hl]
        cases s <;> first | rfl | exact absurd rfl hs
      refine looksOneAheadAt_cons hterm ?_ (looksOneAhead_pure u rest)
      intro us
      exact sign_eq_ok_iff.2 ⟨l, hl, rfl⟩
    | error w =>
      obtain ⟨rfl, rfl, hother⟩ := sign_eq_error_iff.1 hread
      refine looksOneAheadAt_of_head (o := .error w) fun us hhead => ?_
      exact sign_eq_error_iff.2 ⟨rfl, rfl, hhead ▸ hother⟩

end Phrase

open Phrase (LooksOneAhead LooksOneAheadAt looksOneAheadAt_of_head looksOneAheadAt_cons
  looksOneAheadAt_bind looksOneAheadAt_map looksOneAhead_pure looksOneAhead_bind looksOneAhead_name
  looksOneAhead_sign)

/-! ## Foresight of statements -/

/-- Reading an expression looks one lexeme ahead. -/
theorem looksOneAhead_expression : expression.LooksOneAhead := by
  intro ts
  unfold LooksOneAheadAt
  cases hread : expression ts with
  | mk outcome rest =>
    cases outcome with
    | ok e =>
      obtain ⟨p, hsplit, hp, hend⟩ := expression_eq_ok_iff.1 hread
      refine ⟨p, hsplit, hp.withoutTerminators, fun rest' hhead => ?_⟩
      exact expression_eq_ok_iff.2 ⟨p, rfl, hp, (endsBefore_congr hhead).2 hend⟩
    | error wanted =>
      obtain ⟨p, hsplit, hp⟩ := expressionOf_eq_error_iff.1 hread
      refine ⟨p, hsplit, hp.withoutTerminators, fun rest' hhead => ?_⟩
      exact expressionOf_of_breaks hp hhead

/-- What begins like a list with a first lexeme has the same first lexeme. -/
theorem head?_cases {rest : List Lexeme} {l : Lexeme} {ls : List Lexeme}
    (h : rest.head? = (l :: ls).head?) : ∃ us, rest = l :: us := by
  cases rest with
  | nil => cases h
  | cons k us =>
    cases h
    exact ⟨us, rfl⟩

/-- Reading an initial value looks one lexeme ahead. -/
theorem looksOneAhead_initial : initial.LooksOneAhead := by
  intro ts
  by_cases hequals : ∃ l ls, ts = l :: ls ∧ l.token = .sign .equals
  · obtain ⟨l, ls, rfl, hl⟩ := hequals
    refine looksOneAheadAt_cons (by rw [hl]; rfl) ?_
      (looksOneAheadAt_map some (looksOneAhead_expression ls))
    intro us
    exact if_pos hl
  · refine looksOneAheadAt_of_head (o := .ok none) fun rest hhead => ?_
    cases rest with
    | nil => rfl
    | cons l ls =>
      obtain ⟨us, rfl⟩ := head?_cases hhead.symm
      exact if_neg fun hl => hequals ⟨l, us, rfl, hl⟩

/-- Where no plus sign comes next, there are no further sources. -/
theorem furtherSources_of_not_plus {ts : List Lexeme}
    (h : ∀ l ∈ ts.head?, l.token ≠ .sign .plus) : furtherSources ts = ⟨.ok [], ts⟩ := by
  match ts, h with
  | [], _ => rfl
  | [l], h => exact if_neg (h l rfl)
  | l :: m :: ls, h => exact if_neg (h l rfl)

/-- Behind a plus sign comes a further source, and then the sources behind it. -/
theorem furtherSources_plus {l : Lexeme} {ls : List Lexeme} (hplus : l.token = .sign .plus) :
    furtherSources (l :: ls) =
      (Phrase.name .furtherSourceRiver >>= fun n ts => (furtherSources ts).map (n :: ·)) ls := by
  cases ls with
  | nil => exact if_pos hplus
  | cons m ls =>
    rw [furtherSources, if_pos hplus]
    simp only [bind, Phrase.name]
    cases m.token <;> rfl

/-- Reading further sources looks one lexeme ahead. -/
theorem looksOneAhead_furtherSources : furtherSources.LooksOneAhead := by
  intro ts
  -- Each further source takes up a plus sign and a name, so the lexemes get fewer.
  induction hn : ts.length using Nat.strongRecOn generalizing ts with
  | ind n ih =>
    by_cases hplus : ∃ l ls, ts = l :: ls ∧ l.token = .sign .plus
    · obtain ⟨l, ls, rfl, hl⟩ := hplus
      refine looksOneAheadAt_cons (by rw [hl]; rfl) (fun us => furtherSources_plus hl) ?_
      refine looksOneAheadAt_bind (looksOneAhead_name _ ls) fun x mid hread => ?_
      obtain ⟨m, -, rfl⟩ := Phrase.name_eq_ok_iff.1 hread
      have hshort : mid.length < n := by
        rw [← hn, List.length_cons, List.length_cons]
        omega
      exact looksOneAheadAt_map (x :: ·) (ih mid.length hshort mid rfl)
    · refine looksOneAheadAt_of_head (o := .ok []) fun rest hhead => ?_
      apply furtherSources_of_not_plus
      intro l hl hsign
      rw [hhead] at hl
      cases ts with
      | nil => cases hl
      | cons k ls =>
        cases hl
        exact hplus ⟨l, ls, rfl, hsign⟩

/-- A dam has no mode but open, closed and adjusted. -/
theorem damMode_of_other {l : Lexeme} (ls : List Lexeme) (hopening : l.token ≠ .keyword .opening)
    (hclosing : l.token ≠ .keyword .closing) (hadjust : l.token ≠ .keyword .adjust) :
    damMode (l :: ls) = ⟨.error .damMode, l :: ls⟩ := by
  unfold damMode
  split <;> simp_all

/-- Reading the mode of a dam looks one lexeme ahead. -/
theorem looksOneAhead_damMode : damMode.LooksOneAhead := by
  intro ts
  fun_cases damMode ts with
  | case1 =>
    refine looksOneAheadAt_of_head (o := .error .damMode) fun rest hhead => ?_
    cases rest with
    | nil => rfl
    | cons l ls => cases hhead
  | case2 l ls hword =>
    refine looksOneAheadAt_cons (by rw [hword]; rfl) ?_
      (looksOneAhead_pure (DamMode.opened, l.line) ls)
    intro us
    rw [damMode, hword]
    rfl
  | case3 l ls hword =>
    refine looksOneAheadAt_cons (by rw [hword]; rfl) ?_
      (looksOneAhead_pure (DamMode.closed, l.line) ls)
    intro us
    rw [damMode, hword]
    rfl
  | case4 l ls hword =>
    refine looksOneAheadAt_cons (by rw [hword]; rfl) ?_
      (looksOneAheadAt_map (fun e => (DamMode.adjusted e, l.line)) (looksOneAhead_expression ls))
    intro us
    rw [damMode, hword]
  | case5 l ls hopening hclosing hadjust =>
    refine looksOneAheadAt_of_head (o := .error .damMode) fun rest hhead => ?_
    obtain ⟨us, rfl⟩ := head?_cases hhead
    exact damMode_of_other us hopening hclosing hadjust

/-- Reading what follows the keyword of a statement looks one lexeme ahead. -/
theorem looksOneAhead_statementAfter? {word : Keyword} {line : Nat} {p : Phrase Statement}
    (h : statementAfter? word line = some p) : p.LooksOneAhead := by
  have hname (wanted : Expectation) := looksOneAhead_name wanted
  have hequals := looksOneAhead_sign (s := .equals) (by decide) .equalsAfterRiver
  have harrow := looksOneAhead_sign (s := .arrow) (by decide) .arrowAfterSource
  have hpure (s : Statement) := looksOneAhead_pure s
  cases word <;> simp only [statementAfter?, Option.some.injEq, reduceCtorEq] at h <;> subst h
  · exact looksOneAhead_bind (hname _) fun _ =>
      looksOneAhead_bind looksOneAhead_initial fun _ => hpure _
  · exact looksOneAhead_bind (hname _) fun _ => hpure _
  · exact looksOneAhead_bind (hname _) fun _ => looksOneAhead_bind hequals fun _ =>
      looksOneAhead_bind (hname _) fun _ =>
        looksOneAhead_bind looksOneAhead_furtherSources fun _ => hpure _
  · exact looksOneAhead_bind (hname _) fun _ => looksOneAhead_bind harrow fun _ =>
      looksOneAhead_bind (hname _) fun _ => hpure _
  · exact looksOneAhead_bind (hname _) fun _ =>
      looksOneAhead_bind looksOneAhead_damMode fun _ => hpure _
  · exact looksOneAhead_bind (hname _) fun _ =>
      looksOneAhead_bind looksOneAhead_initial fun _ => hpure _
  · exact looksOneAhead_bind looksOneAhead_expression fun _ => hpure _

/-- What follows a part that is read does not matter to the first lexeme, as long as it begins in
the same way. -/
theorem exists_cons_of_head? {front rest rest' : List Lexeme} {l : Lexeme} {ls : List Lexeme}
    (hsplit : l :: ls = front ++ rest) (hhead : rest'.head? = rest.head?) :
    ∃ us, front ++ rest' = l :: us := by
  have hsame : (front ++ rest').head? = (l :: ls).head? := by
    rw [hsplit]
    exact Phrase.head?_append_congr front hhead
  exact head?_cases hsame

/-- A simple statement as a phrase. -/
def simplePhrase : Phrase Statement
  | [] => ⟨.error .statement, []⟩
  | l :: ls => simpleStatement l ls

/-- Reading a simple statement looks one lexeme ahead. -/
theorem looksOneAhead_simplePhrase : simplePhrase.LooksOneAhead := by
  intro ts
  cases ts with
  | nil =>
    refine looksOneAheadAt_of_head (o := .error .statement) fun rest hhead => ?_
    cases rest with
    | nil => rfl
    | cons l ls => cases hhead
  | cons l ls =>
    by_cases hword : ∃ word p, l.token = .keyword word ∧ statementAfter? word l.line = some p
    · obtain ⟨word, p, hl, hp⟩ := hword
      refine looksOneAheadAt_cons (by rw [hl]; rfl) ?_ (looksOneAhead_statementAfter? hp ls)
      exact fun us => simpleStatement_of_keyword us hl hp
    · -- The statement is an expression, and the first lexeme is still the same.
      have hexpr (us : List Lexeme) :
          simplePhrase (l :: us) = expressionStatement l.line (l :: us) := by
        show simpleStatement l us = _
        unfold simpleStatement
        split
        · rename_i word hl
          split
          · rename_i p hp
            exact absurd ⟨word, p, hl, hp⟩ hword
          · rfl
        · rfl
      obtain ⟨front, hsplit, hfront, hsettled⟩ :=
        looksOneAheadAt_map (Statement.expr · l.line) (looksOneAhead_expression (l :: ls))
      unfold LooksOneAheadAt
      rw [hexpr]
      refine ⟨front, hsplit, hfront, fun rest hhead => ?_⟩
      obtain ⟨us, hus⟩ := exists_cons_of_head? hsplit hhead
      rw [hus, hexpr, ← hus]
      exact hsettled rest hhead

/-- A simple statement is read in the same way wherever the lexemes left begin in the same way. -/
theorem simpleStatement_settled {l : Lexeme} {ls rest : List Lexeme}
    {outcome : Except Expectation Statement} (hread : simpleStatement l ls = ⟨outcome, rest⟩) :
    ∃ p, l :: ls = p ++ rest ∧ ∀ rest', rest'.head? = rest.head? →
      ∃ us, p ++ rest' = l :: us ∧ simpleStatement l us = ⟨outcome, rest'⟩ := by
  obtain ⟨p, hsplit, -, hsettled⟩ := looksOneAhead_simplePhrase (l :: ls)
  have hphrase : simplePhrase (l :: ls) = ⟨outcome, rest⟩ := hread
  rw [hphrase] at hsplit hsettled
  refine ⟨p, hsplit, fun rest' hhead => ?_⟩
  obtain ⟨us, hus⟩ := exists_cons_of_head? hsplit hhead
  have hsame := hsettled rest' hhead
  rw [hus] at hsame
  exact ⟨us, hus, hsame⟩

/-! ## What was read of a statement can be completed -/

namespace Phrase

variable {β : Type}

/-- A name and what follows it fail in front of the name or behind it. -/
theorem name_bind_of_error {wanted w : Expectation} {f : String → Phrase β}
    {ts rest : List Lexeme} (h : (name wanted >>= f) ts = ⟨.error w, rest⟩) :
    rest = ts ∨ ∃ l n ls, l.token = .name n ∧ ts = l :: ls ∧ f n ls = ⟨.error w, rest⟩ := by
  rcases bind_eq_error_iff.1 h with hname | ⟨n, ls, hname, hf⟩
  · exact .inl (name_eq_error_iff.1 hname).2.1
  · obtain ⟨l, hl, rfl⟩ := name_eq_ok_iff.1 hname
    exact .inr ⟨l, n, ls, hl, rfl, hf⟩

/-- A sign and what follows it fail in front of the sign or behind it. -/
theorem sign_bind_of_error {s : Sign} {wanted w : Expectation} {f : Unit → Phrase β}
    {ts rest : List Lexeme} (h : (sign s wanted >>= f) ts = ⟨.error w, rest⟩) :
    rest = ts ∨ ∃ l ls, l.token = .sign s ∧ ts = l :: ls ∧ f () ls = ⟨.error w, rest⟩ := by
  rcases bind_eq_error_iff.1 h with hsign | ⟨_, ls, hsign, hf⟩
  · exact .inl (sign_eq_error_iff.1 hsign).2.1
  · obtain ⟨l, hl, rfl⟩ := sign_eq_ok_iff.1 hsign
    exact .inr ⟨l, ls, hl, rfl, hf⟩

/-- A phrase that makes a value of another one fails where the other one does. -/
theorem bind_pure_of_error {α : Type} {p : Phrase α} {f : α → β} {w : Expectation}
    {ts rest : List Lexeme} (h : (p >>= fun a => pure (f a)) ts = ⟨.error w, rest⟩) :
    p ts = ⟨.error w, rest⟩ := by
  rcases bind_eq_error_iff.1 h with hp | ⟨a, mid, -, hpure⟩
  · exact hp
  · exact absurd hpure pure_ne_error

end Phrase

/-- What was read of an expression that fails can be completed to one. -/
theorem expression_completed {ts rest : List Lexeme} {w : Expectation}
    (h : expression ts = ⟨.error w, rest⟩) :
    ∃ p q e, ts = p ++ rest ∧ Derives (some .disjunction) (p ++ q) e := by
  obtain ⟨p, hsplit, hp⟩ := expressionOf_eq_error_iff.1 h
  obtain ⟨q, e, hq⟩ := hp.completed
  exact ⟨p, q, e, hsplit, hq⟩

/-- What was read of an initial value that fails can be completed to one. -/
theorem initial_completed {ts rest : List Lexeme} {w : Expectation}
    (h : initial ts = ⟨.error w, rest⟩) : ∃ p q v, ts = p ++ rest ∧ Initial (p ++ q) v := by
  unfold initial at h
  split at h
  · cases h
  · rename_i l ls
    split at h
    · rename_i hequals
      obtain ⟨p, q, e, rfl, hq⟩ := expression_completed (Reading.map_eq_error_iff.1 h)
      exact ⟨l :: p, q, some e, rfl, .some hequals hq⟩
    · cases h

/-- What was read of further sources that fail can be completed to some. -/
theorem furtherSources_completed {ts rest : List Lexeme} {w : Expectation}
    (h : furtherSources ts = ⟨.error w, rest⟩) :
    ∃ p q ns, ts = p ++ rest ∧ FurtherSources (p ++ q) ns := by
  fun_induction furtherSources ts with
  | case1 => cases h
  | case2 l hplus =>
    cases h
    exact ⟨[l], [aName], ["x"], rfl, .cons hplus rfl .nil⟩
  | case3 => cases h
  | case4 l m ls hplus n hn ih =>
    obtain ⟨p, q, ns, rfl, hq⟩ := ih (Reading.map_eq_error_iff.1 h)
    exact ⟨l :: m :: p, q, n :: ns, rfl, .cons hplus hn hq⟩
  | case5 l m ls hplus =>
    cases h
    exact ⟨[l], [aName], ["x"], rfl, .cons hplus rfl .nil⟩
  | case6 => cases h

/-- What was read of a mode that fails can be completed to one. -/
theorem mode_completed {ts rest : List Lexeme} {w : Expectation}
    (h : damMode ts = ⟨.error w, rest⟩) :
    ∃ p q mode line, ts = p ++ rest ∧ Mode (p ++ q) mode line := by
  fun_cases damMode ts with
  | case1 =>
    cases h
    exact ⟨[], [⟨.keyword .opening, "open", 0⟩], .opened, 0, rfl, .opened rfl⟩
  | case2 l ls hword => simp [damMode, hword] at h
  | case3 l ls hword => simp [damMode, hword] at h
  | case4 l ls hword =>
    rw [damMode, hword] at h
    obtain ⟨p, q, e, rfl, hq⟩ := expression_completed (Reading.map_eq_error_iff.1 h)
    exact ⟨l :: p, q, .adjusted e, l.line, rfl, .adjusted hword hq⟩
  | case5 l ls hopening hclosing hadjust =>
    rw [damMode_of_other ls hopening hclosing hadjust] at h
    cases h
    exact ⟨[], [⟨.keyword .opening, "open", 0⟩], .opened, 0, rfl, .opened rfl⟩

/-- What was read of a statement with a keyword that fails can be completed to one. -/
theorem simple_completed_after {word : Keyword} {l : Lexeme} {ls rest : List Lexeme}
    {w : Expectation} {p : Phrase Statement} (hword : l.token = .keyword word)
    (hp : statementAfter? word l.line = some p) (h : p ls = ⟨.error w, rest⟩) :
    ∃ q r s, l :: ls = q ++ rest ∧ Simple (q ++ r) s := by
  cases word with
  | river =>
    cases hp
    rcases Phrase.name_bind_of_error h with rfl | ⟨n, x, ls, hn, rfl, hrate⟩
    · exact ⟨[l], [aName], _, rfl, .river hword rfl .none⟩
    · obtain ⟨q, r, v, rfl, hv⟩ := initial_completed (Phrase.bind_pure_of_error hrate)
      exact ⟨l :: n :: q, r, _, rfl, .river hword hn hv⟩
  | output =>
    cases hp
    have hname := (Phrase.name_eq_error_iff.1 (Phrase.bind_pure_of_error h)).2.1
    subst hname
    exact ⟨[l], [aName], _, rfl, .output hword rfl⟩
  | combine =>
    cases hp
    rcases Phrase.name_bind_of_error h with rfl | ⟨n, x, ls, hn, rfl, hsum⟩
    · exact ⟨[l], [aName, aSign .equals, aName], _, rfl, .combine hword rfl rfl rfl .nil⟩
    rcases Phrase.sign_bind_of_error hsum with rfl | ⟨a, ls, ha, rfl, hsources⟩
    · exact ⟨[l, n], [aSign .equals, aName], _, rfl, .combine hword hn rfl rfl .nil⟩
    rcases Phrase.name_bind_of_error hsources with rfl | ⟨m, y, ls, hm, rfl, hmore⟩
    · exact ⟨[l, n, a], [aName], _, rfl, .combine hword hn ha rfl .nil⟩
    · obtain ⟨q, r, ns, rfl, hns⟩ := furtherSources_completed (Phrase.bind_pure_of_error hmore)
      exact ⟨l :: n :: a :: m :: q, r, _, rfl, .combine hword hn ha hm hns⟩
  | flow =>
    cases hp
    rcases Phrase.name_bind_of_error h with rfl | ⟨m, x, ls, hm, rfl, harrow⟩
    · exact ⟨[l], [aName, aSign .arrow, aName], _, rfl, .flow hword rfl rfl rfl⟩
    rcases Phrase.sign_bind_of_error harrow with rfl | ⟨a, ls, ha, rfl, htarget⟩
    · exact ⟨[l, m], [aSign .arrow, aName], _, rfl, .flow hword hm rfl rfl⟩
    · have hname := (Phrase.name_eq_error_iff.1 (Phrase.bind_pure_of_error htarget)).2.1
      subst hname
      exact ⟨[l, m, a], [aName], _, rfl, .flow hword hm ha rfl⟩
  | dam =>
    cases hp
    rcases Phrase.name_bind_of_error h with rfl | ⟨n, x, ls, hn, rfl, hsetting⟩
    · exact ⟨[l], [aName, ⟨.keyword .opening, "open", 0⟩], _, rfl, .dam hword rfl (.opened rfl)⟩
    · obtain ⟨q, r, mode, line, rfl, hmode⟩ :=
        mode_completed (Phrase.bind_pure_of_error hsetting)
      exact ⟨l :: n :: q, r, _, rfl, .dam hword hn hmode⟩
  | var =>
    cases hp
    rcases Phrase.name_bind_of_error h with rfl | ⟨n, x, ls, hn, rfl, hvalue⟩
    · exact ⟨[l], [aName], _, rfl, .var hword rfl .none⟩
    · obtain ⟨q, r, v, rfl, hv⟩ := initial_completed (Phrase.bind_pure_of_error hvalue)
      exact ⟨l :: n :: q, r, _, rfl, .var hword hn hv⟩
  | print =>
    cases hp
    obtain ⟨q, r, e, rfl, he⟩ := expression_completed (Phrase.bind_pure_of_error h)
    exact ⟨l :: q, r, _, rfl, .print hword he⟩
  | nil | opening | closing | adjust | and | or => cases hp

/-- What was read of an expression that stands as a statement can be completed to one. -/
theorem simple_completed_expression {line : Nat} {ts rest : List Lexeme} {w : Expectation}
    (h : expressionStatement line ts = ⟨.error w, rest⟩) :
    ∃ q r s, ts = q ++ rest ∧ Simple (q ++ r) s := by
  obtain ⟨q, r, e, hsplit, he⟩ := expression_completed (Reading.map_eq_error_iff.1 h)
  obtain ⟨k, ks, heq, -⟩ := he.begins
  rw [heq] at he
  refine ⟨q, r, .expr e k.line, hsplit, ?_⟩
  rw [heq]
  exact .expr he

/-- Where a simple statement fails, what was read of it is the beginning of a simple statement. -/
theorem simple_completed {l : Lexeme} {ls rest : List Lexeme} {w : Expectation}
    (h : simpleStatement l ls = ⟨.error w, rest⟩) :
    ∃ q r s, l :: ls = q ++ rest ∧ Simple (q ++ r) s := by
  unfold simpleStatement at h
  split at h
  · rename_i word hword
    split at h
    · rename_i p hp
      exact simple_completed_after hword hp h
    · exact simple_completed_expression h
  · exact simple_completed_expression h

end Watershed.Grammar
