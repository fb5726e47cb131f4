import Watershed.Diagnostic

/-!
# Reading phrases

A phrase of the grammar is read from the front of a list of lexemes. A reading that fails still
says where it stopped, because the offending lexeme is the first one left and recovery starts
there.
-/

set_option autoImplicit false

namespace Watershed.Grammar

/-- The outcome of reading a phrase, and the lexemes left. Where the outcome is an expectation,
the first lexeme left is the one that did not meet it. -/
structure Reading (α : Type) where
  outcome : Except Expectation α
  rest : List Lexeme

namespace Reading

variable {α β : Type}

/-- Changes the value of a successful reading. -/
def map (f : α → β) (r : Reading α) : Reading β :=
  ⟨r.outcome.map f, r.rest⟩

/-- The error of a reading that failed. -/
def error? (r : Reading α) : Option GrammarError :=
  match r.outcome with
  | .ok _ => none
  | .error wanted => some ⟨wanted, r.rest.head?⟩

/-- A reading stays within a list of lexemes if what it leaves is a suffix of the list, and a
shorter one if the reading succeeds. -/
def Within (ts : List Lexeme) (r : Reading α) : Prop :=
  r.rest <:+ ts ∧ ∀ a, r.outcome = .ok a → r.rest.length < ts.length

/-- A reading that fails stays within the lexemes if it stops at a suffix of them. -/
theorem within_error {ts : List Lexeme} {wanted : Expectation} {rest : List Lexeme}
    (h : rest <:+ ts) : Within ts (⟨.error wanted, rest⟩ : Reading α) :=
  ⟨h, by simp⟩

/-- What stays within the tail of a list stays within the list. -/
theorem within_cons {ts : List Lexeme} {r : Reading α} (l : Lexeme) (h : r.rest <:+ ts) :
    Within (l :: ts) r :=
  ⟨h.trans (List.suffix_cons l ts), fun _ _ => Nat.lt_succ_of_le h.length_le⟩

end Reading

/-- A phrase that can be read from the front of a list of lexemes. -/
def Phrase (α : Type) : Type :=
  List Lexeme → Reading α

namespace Phrase

variable {α β : Type}

instance : Monad Phrase where
  pure a := fun ts => ⟨.ok a, ts⟩
  bind p f := fun ts =>
    match p ts with
    | ⟨.ok a, rest⟩ => f a rest
    | ⟨.error wanted, rest⟩ => ⟨.error wanted, rest⟩

/-- A phrase is a front phrase if what it leaves is always a suffix of what it was given. -/
def IsFront (p : Phrase α) : Prop :=
  ∀ ts, (p ts).rest <:+ ts

/-- A phrase that reads nothing is a front phrase. -/
theorem isFront_pure (a : α) : IsFront (pure a : Phrase α) :=
  fun ts => List.suffix_refl ts

/-- Two front phrases in a row are a front phrase. -/
theorem isFront_bind {p : Phrase α} {f : α → Phrase β} (hp : p.IsFront) (hf : ∀ a, (f a).IsFront) :
    IsFront (p >>= f) := by
  intro ts
  have hrest := hp ts
  simp only [bind]
  split
  · rename_i a rest heq
    rw [heq] at hrest
    exact (hf a rest).trans hrest
  · rename_i wanted rest heq
    rwa [heq] at hrest

/-- A name; nothing is read if there is none. -/
def name (wanted : Expectation) : Phrase String
  | [] => ⟨.error wanted, []⟩
  | l :: ls =>
    match l.token with
    | .name n => ⟨.ok n, ls⟩
    | _ => ⟨.error wanted, l :: ls⟩

/-- A name is read from the front of the lexemes. -/
theorem isFront_name (wanted : Expectation) : (name wanted).IsFront := by
  intro ts
  fun_cases name wanted ts with
  | case1 => exact List.suffix_refl _
  | case2 => exact List.suffix_cons _ _
  | case3 => exact List.suffix_refl _

/-- A sign; nothing is read if it is another one. -/
def sign (s : Sign) (wanted : Expectation) : Phrase Unit
  | [] => ⟨.error wanted, []⟩
  | l :: ls => if l.token = .sign s then ⟨.ok (), ls⟩ else ⟨.error wanted, l :: ls⟩

/-- A sign is read from the front of the lexemes. -/
theorem isFront_sign (s : Sign) (wanted : Expectation) : (sign s wanted).IsFront := by
  intro ts
  fun_cases sign s wanted ts with
  | case1 => exact List.suffix_refl _
  | case2 => exact List.suffix_cons _ _
  | case3 => exact List.suffix_refl _

end Phrase

end Watershed.Grammar
