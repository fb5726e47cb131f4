import Mathlib
import Watershed.Proofs.Decimal.Numerals
import Watershed.Proofs.Scan.Cuts
import Watershed.Proofs.Syntax

/-!
# Printed trees

A printed tree can be read in one way only. Its text is that of a `Form`: a word, or a head and
further forms in parentheses. Words hold neither spaces nor parentheses, so a text that begins with
a form begins with no other one (`Form.eq_of_text_append_eq`). The form of a statement in turn gives
back the statement, apart from the lines: heads differ for different kinds of statements, and the
operators that are spelled alike have different numbers of operands.
-/

set_option autoImplicit false

namespace Watershed

/-! ## Forms -/

/-- What a printed tree is made of. -/
inductive Form where
  | word (word : String)
  /-- A head and the forms behind it, in parentheses. -/
  | list (head : String) (items : List Form)

/-- Whether a character may stand in a word of a printed tree. -/
def standsInWord (c : Char) : Bool :=
  c != ' ' && c != '(' && c != ')'

/-- Whether a text is a single word. -/
def isWord (s : String) : Bool :=
  s.toList.all standsInWord

namespace Form

mutual

/-- The text of a form. -/
@[simp] def text : Form → String
  | word w => w
  | list head items => "(" ++ head ++ textAll items ++ ")"

/-- The texts of several forms, each after a space. -/
@[simp] def textAll : List Form → String
  | [] => ""
  | f :: fs => " " ++ f.text ++ textAll fs

end

mutual

/-- Whether all words of a form are single words. -/
def IsPlain : Form → Prop
  | word w => isWord w = true
  | list head items => isWord head = true ∧ ArePlain items

/-- Whether all words of some forms are single words. -/
def ArePlain : List Form → Prop
  | [] => True
  | f :: fs => f.IsPlain ∧ ArePlain fs

end

/-- Induction over forms and lists of forms at once. -/
theorem induction_lists {P : Form → Prop} {Q : List Form → Prop} (word : ∀ w, P (word w))
    (list : ∀ head items, Q items → P (list head items)) (nil : Q [])
    (cons : ∀ f fs, P f → Q fs → Q (f :: fs)) : ∀ f, P f := by
  apply @Form.rec P Q
  · exact word
  · exact list
  · exact nil
  · exact cons

/-- Whether a word ends before a text. -/
def StopsBefore (rest : List Char) : Prop :=
  ∀ c ∈ rest.head?, c = ' ' ∨ c = ')'

/-- A word ends before the items of a form and its closing parenthesis. -/
theorem stopsBefore_textAll (fs : List Form) (rest : List Char) :
    StopsBefore ((textAll fs).toList ++ ')' :: rest) := by
  cases fs with
  | nil => simp [StopsBefore]
  | cons f fs => simp [StopsBefore]

/-- A word and the text behind it can be told apart. -/
theorem eq_of_word_append_eq {w w' : String} (hw : isWord w = true) (hw' : isWord w' = true)
    {rest rest' : List Char} (hrest : StopsBefore rest) (hrest' : StopsBefore rest')
    (h : w.toList ++ rest = w'.toList ++ rest') : w = w' ∧ rest = rest' := by
  have hstop : ∀ {more : List Char}, StopsBefore more →
      ∀ c ∈ more.head?, standsInWord c = false := by
    intro more hmore c hc
    rcases hmore c hc with rfl | rfl <;> rfl
  have hword : w.toList = w'.toList := by
    rw [← Piece.takeWhile_append_of_stop (List.all_eq_true.1 hw) (hstop hrest), h,
      Piece.takeWhile_append_of_stop (List.all_eq_true.1 hw') (hstop hrest')]
  rw [hword] at h
  exact ⟨String.toList_inj.1 hword, List.append_cancel_left h⟩

/-- A word does not begin with a parenthesis. -/
theorem word_append_ne {w : String} (hw : isWord w = true) {rest : List Char}
    (hrest : StopsBefore rest) (more : List Char) : w.toList ++ rest ≠ '(' :: more := by
  intro h
  cases hchars : w.toList with
  | nil =>
    -- After an empty word too there is a space or a closing parenthesis.
    rw [hchars, List.nil_append] at h
    have hstop := hrest '(' (by simp [h])
    simp at hstop
  | cons c cs =>
    rw [hchars, List.cons_append] at h
    have hparen := List.all_eq_true.1 hw c (by simp [hchars])
    rw [(List.cons.inj h).1] at hparen
    cases hparen

/-- The characters of a form in parentheses with a text behind it. -/
theorem toList_text_list (head : String) (items : List Form) (rest : List Char) :
    (list head items).text.toList ++ rest =
      '(' :: (head.toList ++ ((textAll items).toList ++ ')' :: rest)) := by
  simp

/-- Every item of a form is written behind a space. -/
theorem toList_textAll_cons (f : Form) (fs : List Form) (rest : List Char) :
    (textAll (f :: fs)).toList ++ ')' :: rest =
      ' ' :: (f.text.toList ++ ((textAll fs).toList ++ ')' :: rest)) := by
  simp

/-- A text begins with no more than one form. -/
theorem eq_of_text_append_eq {f g : Form} (hf : f.IsPlain) (hg : g.IsPlain)
    {rest rest' : List Char} (hrest : StopsBefore rest) (hrest' : StopsBefore rest')
    (h : f.text.toList ++ rest = g.text.toList ++ rest') : f = g ∧ rest = rest' := by
  -- The forms of a list end where its parenthesis is closed.
  induction f using induction_lists
    (Q := fun fs => ∀ gs, ArePlain fs → ArePlain gs → ∀ rest rest',
      (textAll fs).toList ++ ')' :: rest = (textAll gs).toList ++ ')' :: rest' →
        fs = gs ∧ rest = rest') generalizing g rest rest' with
  | word w =>
    cases g with
    | word w' =>
      obtain ⟨rfl, hsame⟩ := eq_of_word_append_eq hf hg hrest hrest' h
      exact ⟨rfl, hsame⟩
    | list head items =>
      rw [toList_text_list] at h
      exact absurd h (word_append_ne hf hrest _)
  | list head items ih =>
    rw [toList_text_list] at h
    cases g with
    | word w => exact absurd h.symm (word_append_ne hg hrest' _)
    | list head' items' =>
      rw [toList_text_list] at h
      obtain ⟨rfl, hitems⟩ := eq_of_word_append_eq hf.1 hg.1 (stopsBefore_textAll _ _)
        (stopsBefore_textAll _ _) (List.cons.inj h).2
      obtain ⟨rfl, hsame⟩ := ih items' hf.2 hg.2 rest rest' hitems
      exact ⟨rfl, hsame⟩
  | nil gs hfs hgs rest rest' h =>
    cases gs with
    | nil => exact ⟨rfl, (List.cons.inj h).2⟩
    | cons g gs =>
      rw [toList_textAll_cons] at h
      cases (List.cons.inj h).1
  | cons f fs ihf ihfs gs hfs hgs rest rest' h =>
    rw [toList_textAll_cons] at h
    cases gs with
    | nil => cases (List.cons.inj h).1
    | cons g gs =>
      rw [toList_textAll_cons] at h
      obtain ⟨rfl, hrests⟩ := ihf hfs.1 hgs.1 (stopsBefore_textAll _ _) (stopsBefore_textAll _ _)
        (List.cons.inj h).2
      obtain ⟨rfl, hsame⟩ := ihfs gs hfs.2 hgs.2 rest rest' hrests
      exact ⟨rfl, hsame⟩

/-- A form with single words only is determined by its text. -/
theorem eq_of_text_eq {f g : Form} (hf : f.IsPlain) (hg : g.IsPlain) (h : f.text = g.text) :
    f = g := by
  have hnil : StopsBefore [] := by simp [StopsBefore]
  exact (eq_of_text_append_eq hf hg hnil hnil (by rw [h])).1

end Form

/-! ## Words of trees -/

/-- Whether a text is a name as it stands in a program. -/
def IsName (n : String) : Prop :=
  Spells (.name n) n.toList

/-- Whether the tree of a literal shows which value it is. A text is shown without its quotes, so it
may look like anything, and a number that is not finite looks like a name. -/
def Value.IsLegible : Value → Prop
  | number x => x.isFinite = true
  | text _ => False
  | bool _ => True
  | nil => True

/-- Whether a text begins as names and keywords do. -/
def beginsWord (s : String) : Bool :=
  s.toList.head?.any Piece.startsWord

/-- Words are made of all characters but spaces and parentheses. -/
theorem standsInWord_eq_false_iff {c : Char} :
    standsInWord c = false ↔ c = ' ' ∨ c = '(' ∨ c = ')' := by
  simp only [standsInWord, Bool.and_eq_false_iff, bne_eq_false_iff_eq, or_assoc]

/-- What continues a name may stand in a word of a tree. -/
theorem standsInWord_of_continuesWord {c : Char} (h : Piece.continuesWord c = true) :
    standsInWord c = true := by
  rw [← Bool.not_eq_false, standsInWord_eq_false_iff]
  rintro (rfl | rfl | rfl) <;> cases h

/-- What may stand in a numeral may stand in a word of a tree. -/
theorem standsInWord_of_uses {c : Char} (h : Decimal.Numeral.uses c = true) :
    standsInWord c = true := by
  rw [← Bool.not_eq_false, standsInWord_eq_false_iff]
  rintro (rfl | rfl | rfl) <;> cases h

namespace IsName

variable {n : String} (h : IsName n)

include h

/-- A name begins with a character that starts words and goes on with such as continue them. -/
theorem exists_toList : ∃ c cs, n.toList = c :: cs ∧ Piece.startsWord c = true ∧
    ∀ d ∈ cs, Piece.continuesWord d = true := by
  unfold IsName at h
  generalize n.toList = chars at h
  cases h with
  | name starts continues free untrue => exact ⟨_, _, rfl, starts, continues⟩

/-- A name is not reserved. -/
theorem not_reserved : (∀ word : Keyword, word.spelling ≠ n) ∧ n ≠ "true" ∧ n ≠ "false" := by
  unfold IsName at h
  generalize n.toList = chars at h
  cases h with
  | name starts continues free untrue => exact ⟨free, untrue⟩

/-- A name is a single word. -/
theorem isWord : isWord n = true := by
  obtain ⟨c, cs, hchars, hstarts, hcontinues⟩ := h.exists_toList
  have hhead := standsInWord_of_continuesWord (Piece.continuesWord_of_startsWord hstarts)
  have htail : ∀ d ∈ cs, standsInWord d = true :=
    fun d hd => standsInWord_of_continuesWord (hcontinues d hd)
  simpa [Watershed.isWord, hchars, hhead] using htail

/-- A name begins as names do. -/
theorem beginsWord : beginsWord n = true := by
  obtain ⟨c, cs, hchars, hstarts, -⟩ := h.exists_toList
  simp [Watershed.beginsWord, hchars, hstarts]

end IsName

namespace Value

/-- A finite number does not begin as names do. -/
theorem beginsWord_number {x : Float} (h : x.isFinite = true) :
    beginsWord (number x).literalText = false := by
  have hhead : ∃ c ∈ (number x).literalText.toList.head?, c.isDigit = true ∨ c = '-' :=
    Decimal.exists_head_text h
  obtain ⟨c, hhead, hdigit | rfl⟩ := hhead
  · rw [beginsWord, Option.mem_def.1 hhead, Option.any_some, ← Bool.not_eq_true]
    intro hstarts
    exact Bool.false_ne_true ((Piece.isDigit_of_startsWord hstarts).symm.trans hdigit)
  · rw [beginsWord, Option.mem_def.1 hhead]
    rfl

/-- A literal that shows its value is a single word. -/
theorem isWord_literalText {v : Value} (h : v.IsLegible) : isWord v.literalText = true := by
  cases v with
  | number x =>
    exact List.all_eq_true.2 fun c hc => standsInWord_of_uses (Decimal.uses_of_mem_text h hc)
  | text s => cases h
  | bool b => cases b <;> rfl
  | nil => rfl

/-- A literal that shows its value does not look like a name. -/
theorem literalText_ne_name {v : Value} (h : v.IsLegible) {n : String} (hn : IsName n) :
    v.literalText ≠ n := by
  rintro rfl
  cases v with
  | number x => exact Bool.false_ne_true ((beginsWord_number h).symm.trans hn.beginsWord)
  | text s => cases h
  | bool b =>
    cases b with
    | false => exact hn.not_reserved.2.2 rfl
    | true => exact hn.not_reserved.2.1 rfl
  | nil => exact hn.not_reserved.1 .nil rfl

/-- A literal that shows its value and is no number does not look like a number. -/
theorem literalText_ne_number {v : Value} (h : v.IsLegible) (hv : ∀ x, v ≠ number x) {x : Float}
    (hx : x.isFinite = true) : v.literalText ≠ (number x).literalText := by
  have hbegins : beginsWord v.literalText = true := by
    cases v with
    | number y => exact absurd rfl (hv y)
    | text s => cases h
    | bool b => cases b <;> rfl
    | nil => rfl
  intro heq
  rw [heq, beginsWord_number hx] at hbegins
  cases hbegins

/-- Literals that show their values show different values differently. -/
theorem literalText_injective {v v' : Value} (h : v.IsLegible) (h' : v'.IsLegible)
    (heq : v.literalText = v'.literalText) : v = v' := by
  by_cases hv : ∃ x, v = number x <;> by_cases hv' : ∃ x, v' = number x
  · obtain ⟨x, rfl⟩ := hv
    obtain ⟨y, rfl⟩ := hv'
    rw [Decimal.text_injective h h' heq]
  · obtain ⟨x, rfl⟩ := hv
    exact absurd heq.symm (literalText_ne_number h' (not_exists.1 hv') h)
  · obtain ⟨y, rfl⟩ := hv'
    exact absurd heq (literalText_ne_number h (not_exists.1 hv) h')
  · -- Truth values and `nil` are three different words.
    rcases v with x | s | (_ | _) | _ <;> rcases v' with x' | s' | (_ | _) | _ <;>
      simp_all [literalText, boolText, IsLegible]

end Value

/-! ## Expressions -/

/-- Different unary operators are spelled differently. -/
@[simp] theorem UnaryOp.spelling_inj {op op' : UnaryOp} :
    op.spelling = op'.spelling ↔ op = op' := by
  cases op <;> cases op' <;> simp [spelling]

/-- Different binary operators are spelled differently. -/
@[simp] theorem BinaryOp.spelling_inj {op op' : BinaryOp} :
    op.spelling = op'.spelling ↔ op = op' := by
  cases op <;> cases op' <;> simp [spelling]

/-- Different logical operators are spelled differently. -/
@[simp] theorem LogicalOp.spelling_inj {op op' : LogicalOp} :
    op.spelling = op'.spelling ↔ op = op' := by
  cases op <;> cases op' <;> simp [spelling]

/-- No binary operator is spelled like a logical one. -/
theorem BinaryOp.spelling_ne_logical (op : BinaryOp) (op' : LogicalOp) :
    op.spelling ≠ op'.spelling := by
  cases op <;> cases op' <;> simp [spelling, LogicalOp.spelling]

/-- No unary operator is spelled like a group. -/
theorem UnaryOp.spelling_ne_group (op : UnaryOp) : op.spelling ≠ "group" := by
  cases op <;> simp [spelling]

namespace Expr

/-- The expression with all its lines left out. -/
def unlined : Expr → Expr
  | literal value _ => literal value 0
  | name n _ => name n 0
  | group inner _ => group inner.unlined 0
  | unary op operand _ => unary op operand.unlined 0
  | binary op left right _ => binary op left.unlined right.unlined 0
  | logical op left right _ => logical op left.unlined right.unlined 0

/-- Whether all words of an expression's tree show what they are. -/
def IsLegible : Expr → Prop
  | literal value _ => value.IsLegible
  | name n _ => IsName n
  | group inner _ => inner.IsLegible
  | unary _ operand _ => operand.IsLegible
  | binary _ left right _ => left.IsLegible ∧ right.IsLegible
  | logical _ left right _ => left.IsLegible ∧ right.IsLegible

/-- The form of an expression's tree. -/
def form : Expr → Form
  | literal value _ => .word value.literalText
  | name n _ => .word n
  | group inner _ => .list "group" [inner.form]
  | unary op operand _ => .list op.spelling [operand.form]
  | binary op left right _ => .list op.spelling [left.form, right.form]
  | logical op left right _ => .list op.spelling [left.form, right.form]

/-- The form of an expression has the expression's tree as its text. -/
@[simp] theorem text_form (e : Expr) : e.form.text = e.tree := by
  apply String.toList_inj.1
  induction e with
  | literal value line => simp [form, tree]
  | name n line => simp [form, tree]
  | group inner line ih => simp [form, tree, ih]
  | unary op operand line ih => simp [form, tree, ih]
  | binary op left right line ihl ihr => simp [form, tree, ihl, ihr]
  | logical op left right line ihl ihr => simp [form, tree, ihl, ihr]

/-- The form of an expression whose words show what they are has single words only. -/
theorem isPlain_form {e : Expr} (h : e.IsLegible) : e.form.IsPlain := by
  induction e with
  | literal value line => exact Value.isWord_literalText h
  | name n line => exact h.isWord
  | group inner line ih => exact ⟨rfl, ih h, trivial⟩
  | unary op operand line ih => exact ⟨by cases op <;> rfl, ih h, trivial⟩
  | binary op left right line ihl ihr => exact ⟨by cases op <;> rfl, ihl h.1, ihr h.2, trivial⟩
  | logical op left right line ihl ihr => exact ⟨by cases op <;> rfl, ihl h.1, ihr h.2, trivial⟩

/-- The form of an expression gives back the expression without its lines. -/
theorem unlined_eq_of_form_eq {e e' : Expr} (h : e.IsLegible) (h' : e'.IsLegible)
    (heq : e.form = e'.form) : e.unlined = e'.unlined := by
  induction e generalizing e' with
  | literal value line =>
    cases e' with
    | literal value' line' =>
      rw [unlined, unlined, Value.literalText_injective h h' (Form.word.inj heq)]
    | name n line' => exact absurd (Form.word.inj heq) (Value.literalText_ne_name h h')
    | _ => cases heq
  | name n line =>
    cases e' with
    | literal value line' =>
      exact absurd (Form.word.inj heq).symm (Value.literalText_ne_name h' h)
    | name n' line' => rw [unlined, unlined, Form.word.inj heq]
    | _ => cases heq
  | group inner line ih =>
    cases e' with
    | group inner' line' =>
      simp only [form, Form.list.injEq, List.cons.injEq, and_true, true_and] at heq
      have hinner : inner.unlined = inner'.unlined := ih h h' heq
      rw [unlined, unlined, hinner]
    | unary op operand line' =>
      exact absurd (Form.list.inj heq).1.symm op.spelling_ne_group
    | _ => simp [form] at heq
  | unary op operand line ih =>
    -- A difference is spelled as a negation is, but has one item more.
    cases e' with
    | group inner line' => exact absurd (Form.list.inj heq).1 op.spelling_ne_group
    | unary op' operand' line' =>
      simp only [form, Form.list.injEq, UnaryOp.spelling_inj, List.cons.injEq, and_true] at heq
      have hoperand : operand.unlined = operand'.unlined := ih h h' heq.2
      rw [unlined, unlined, heq.1, hoperand]
    | _ => simp [form] at heq
  | binary op left right line ihl ihr =>
    cases e' with
    | binary op' left' right' line' =>
      simp only [form, Form.list.injEq, BinaryOp.spelling_inj, List.cons.injEq, and_true] at heq
      rw [unlined, unlined, heq.1, ihl h.1 h'.1 heq.2.1, ihr h.2 h'.2 heq.2.2]
    | logical op' left' right' line' =>
      exact absurd (Form.list.inj heq).1 (op.spelling_ne_logical op')
    | _ => simp [form] at heq
  | logical op left right line ihl ihr =>
    cases e' with
    | binary op' left' right' line' =>
      exact absurd (Form.list.inj heq).1.symm (op'.spelling_ne_logical op)
    | logical op' left' right' line' =>
      simp only [form, Form.list.injEq, LogicalOp.spelling_inj, List.cons.injEq, and_true] at heq
      rw [unlined, unlined, heq.1, ihl h.1 h'.1 heq.2.1, ihr h.2 h'.2 heq.2.2]
    | _ => simp [form] at heq

end Expr

/-! ## Statements -/

/-- The setting of a dam with all its lines left out. -/
def DamMode.unlined : DamMode → DamMode
  | opened => opened
  | closed => closed
  | adjusted factor => adjusted factor.unlined

/-- The forms that show the setting of a dam. -/
def DamMode.forms : DamMode → List Form
  | opened => [.word "open"]
  | closed => [.word "close"]
  | adjusted factor => [.word "adjust", factor.form]

/-- The forms that show a sum of rivers. -/
def sumForms : List String → List Form
  | [] => []
  | [n] => [.word n]
  | n :: m :: ns => .word n :: .word "+" :: sumForms (m :: ns)

namespace Statement

mutual

/-- The statement with all its lines left out. -/
def unlined : Statement → Statement
  | block body _ => block (unlinedAll body) 0
  | expr e _ => expr e.unlined 0
  | print e _ => print e.unlined 0
  | var name initial _ => var name (initial.map Expr.unlined) 0
  | river name rate _ => river name (rate.map Expr.unlined) 0
  | output name _ => output name 0
  | combine name sources _ => combine name sources 0
  | flow source target _ => flow source target 0
  | dam name mode _ => dam name mode.unlined 0

/-- Several statements with all their lines left out. -/
def unlinedAll : List Statement → List Statement
  | [] => []
  | s :: ss => s.unlined :: unlinedAll ss

end

/-- Whether what stands directly in a statement shows in its tree what it is: literals are legible,
names are names of the language, and rivers are only combined if there are any. -/
def ShowsParts (s : Statement) : Prop :=
  (∀ e ∈ s.expressions, e.IsLegible) ∧ (∀ n ∈ s.mentioned ++ s.declared, IsName n) ∧
    ∀ name line, s ≠ combine name [] line

/-- Whether all parts of some statements show in their trees what they are. -/
def AreLegible (ss : List Statement) : Prop :=
  ∀ s ∈ simplesAll ss, s.ShowsParts

/-- Whether all parts of a statement show in its tree what they are. -/
def IsLegible (s : Statement) : Prop :=
  ∀ t ∈ s.simples, t.ShowsParts

/-- The word that a statement's tree begins with. -/
def head : Statement → String
  | block _ _ => "block"
  | expr _ _ => ";"
  | print _ _ => "print"
  | var _ _ _ => "var"
  | river _ _ _ => "river"
  | output _ _ => "output"
  | combine _ _ _ => "combine"
  | flow _ _ _ => "flow"
  | dam _ _ _ => "dam"

mutual

/-- The forms behind the head of a statement's tree. -/
def items : Statement → List Form
  | block body _ => forms body
  | expr e _ => [e.form]
  | print e _ => [e.form]
  | var name initial _ => .word name :: initial.elim [] fun e => [e.form]
  | river name rate _ => .word name :: rate.elim [] fun e => [.word "=", e.form]
  | output name _ => [.word name]
  | combine name sources _ => .word name :: .word "=" :: sumForms sources
  | flow source target _ => [.word source, .word "->", .word target]
  | dam name mode _ => .word name :: mode.forms

/-- The forms of several statements' trees. -/
def forms : List Statement → List Form
  | [] => []
  | s :: ss => .list s.head s.items :: forms ss

end

/-- The form of a statement's tree. -/
def form (s : Statement) : Form :=
  .list s.head s.items

/-- Statements show their parts if the first does and the others do. -/
theorem areLegible_cons {s : Statement} {ss : List Statement} :
    AreLegible (s :: ss) ↔ s.IsLegible ∧ AreLegible ss := by
  simp only [AreLegible, IsLegible, simplesAll, List.forall_mem_append]

/-- A statement that shows all its parts shows those that stand directly in it. -/
theorem IsLegible.showsParts {s : Statement} (h : s.IsLegible) : s.ShowsParts := by
  cases hs : s.isBlock with
  | false => exact h s (by simp [simples_of_isBlock_eq_false hs])
  | true =>
    cases s with
    | block body line => simp [ShowsParts, expressions, mentioned, declared]
    | _ => cases hs

/-- The forms of a sum are written as the names with plus signs between them. -/
theorem textAll_sumForms {ns : List String} (h : ns ≠ []) :
    Form.textAll (sumForms ns) = " " ++ " + ".intercalate ns := by
  apply String.toList_inj.1
  fun_induction sumForms ns with
  | case1 => exact absurd rfl h
  | case2 n => simp
  | case3 n m ns ih => simp [ih, String.intercalate_cons_cons]

/-- The form of a simple statement has the statement's tree as its text. -/
theorem text_form_simple {s : Statement} (hs : s.isBlock = false) (h : s.ShowsParts) :
    s.form.text = s.tree := by
  apply String.toList_inj.1
  cases s with
  | block => cases hs
  | var name initial line => cases initial <;> simp [form, head, items, tree]
  | river name rate line => cases rate <;> simp [form, head, items, tree]
  | combine name sources line =>
    have hsources : sources ≠ [] := by
      rintro rfl
      exact h.2.2 name line rfl
    simp [form, head, items, tree, textAll_sumForms hsources]
  | dam name mode line => cases mode <;> simp [form, head, items, tree, DamMode.forms]
  | _ => simp [form, head, items, tree]

/-- The text of a legible statement's form is its tree. -/
theorem text_forms : (∀ s : Statement, s.IsLegible → s.form.text = s.tree) ∧
    ∀ ss, AreLegible ss → Form.textAll (forms ss) = treeAll ss := by
  apply induction_lists
  case simple =>
    intro s hs h
    exact text_form_simple hs h.showsParts
  case block =>
    intro body line ih h
    apply String.toList_inj.1
    simp [form, head, items, tree, ih h]
  case nil => simp [forms, treeAll]
  case cons =>
    intro s ss ihs ihss h
    obtain ⟨hs, hss⟩ := areLegible_cons.1 h
    have hform : (Form.list s.head s.items).text = s.tree := ihs hs
    rw [forms, Form.textAll, hform, ihss hss, treeAll]

/-- The head of a statement's tree is a single word. -/
theorem isWord_head (s : Statement) : isWord s.head = true := by
  cases s <;> simp only [head] <;> rfl

/-- The forms of a sum of names have single words only. -/
theorem arePlain_sumForms {ns : List String} (h : ∀ n ∈ ns, isWord n = true) :
    Form.ArePlain (sumForms ns) := by
  fun_induction sumForms ns with
  | case1 => trivial
  | case2 n => exact ⟨h n (by simp), trivial⟩
  | case3 n m ns ih => exact ⟨h n (by simp), rfl, ih fun k hk => h k (by simp [hk])⟩

/-- The forms of a simple statement that shows its parts have single words only. -/
theorem arePlain_items_simple {s : Statement} (hs : s.isBlock = false) (h : s.ShowsParts) :
    Form.ArePlain s.items := by
  have hexpr : ∀ e ∈ s.expressions, e.form.IsPlain := fun e he => Expr.isPlain_form (h.1 e he)
  have hname : ∀ n ∈ s.mentioned ++ s.declared, isWord n = true := fun n hn => (h.2.1 n hn).isWord
  cases s with
  | block => cases hs
  | expr e line => exact ⟨hexpr e (by simp [expressions]), trivial⟩
  | print e line => exact ⟨hexpr e (by simp [expressions]), trivial⟩
  | var name initial line =>
    refine ⟨hname name (by simp [declared]), ?_⟩
    cases initial with
    | none => trivial
    | some e => exact ⟨hexpr e (by simp [expressions]), trivial⟩
  | river name rate line =>
    refine ⟨hname name (by simp [mentioned]), ?_⟩
    cases rate with
    | none => trivial
    | some e => exact ⟨rfl, hexpr e (by simp [expressions]), trivial⟩
  | output name line => exact ⟨hname name (by simp [mentioned]), trivial⟩
  | combine name sources line =>
    refine ⟨hname name (by simp [mentioned]), rfl, arePlain_sumForms fun n hn => ?_⟩
    exact hname n (by simp [mentioned, hn])
  | flow source target line =>
    exact ⟨hname source (by simp [mentioned]), rfl, hname target (by simp [mentioned]), trivial⟩
  | dam name mode line =>
    refine ⟨hname name (by simp [mentioned]), ?_⟩
    cases mode with
    | opened => exact ⟨rfl, trivial⟩
    | closed => exact ⟨rfl, trivial⟩
    | adjusted factor => exact ⟨rfl, hexpr factor (by simp [expressions]), trivial⟩

/-- The forms of statements that show their parts have single words only. -/
theorem arePlain_forms : (∀ s : Statement, s.IsLegible → Form.ArePlain s.items) ∧
    ∀ ss, AreLegible ss → Form.ArePlain (forms ss) := by
  apply induction_lists
  case simple =>
    intro s hs h
    exact arePlain_items_simple hs h.showsParts
  case block =>
    intro body line ih h
    exact ih h
  case nil => exact fun _ => trivial
  case cons =>
    intro s ss ihs ihss h
    obtain ⟨hs, hss⟩ := areLegible_cons.1 h
    exact ⟨⟨isWord_head s, ihs hs⟩, ihss hss⟩

/-- Different sums have different forms. -/
theorem sumForms_injective {ns ns' : List String} (h : sumForms ns = sumForms ns') : ns = ns' := by
  fun_induction sumForms ns generalizing ns' with
  | case1 => rcases ns' with _ | ⟨n', _ | ⟨m', ns'⟩⟩ <;> simp_all [sumForms]
  | case2 n => rcases ns' with _ | ⟨n', _ | ⟨m', ns'⟩⟩ <;> simp_all [sumForms]
  | case3 n m ns ih =>
    rcases ns' with _ | ⟨n', _ | ⟨m', ns'⟩⟩
    · simp [sumForms] at h
    · simp [sumForms] at h
    · simp only [sumForms, List.cons.injEq, Form.word.injEq, true_and] at h
      rw [h.1, ih h.2]

/-- A simple statement can be told from its head and the forms behind it, apart from the lines. -/
theorem unlined_eq_simple {s t : Statement} (hs : s.isBlock = false) (h : s.ShowsParts)
    (h' : t.ShowsParts) (hhead : s.head = t.head) (hitems : s.items = t.items) :
    s.unlined = t.unlined := by
  have hexpr : ∀ e ∈ s.expressions, ∀ e' ∈ t.expressions, e.form = e'.form →
      e.unlined = e'.unlined :=
    fun e he e' he' => Expr.unlined_eq_of_form_eq (h.1 e he) (h'.1 e' he')
  cases s with
  | block => cases hs
  | expr e line =>
    cases t with
    | expr e' line' =>
      have he : e.unlined = e'.unlined :=
        hexpr e (by simp [expressions]) e' (by simp [expressions]) (List.cons.inj hitems).1
      rw [unlined, unlined, he]
    | _ => simp [head] at hhead
  | print e line =>
    cases t with
    | print e' line' =>
      have he : e.unlined = e'.unlined :=
        hexpr e (by simp [expressions]) e' (by simp [expressions]) (List.cons.inj hitems).1
      rw [unlined, unlined, he]
    | _ => simp [head] at hhead
  | var name initial line =>
    cases t with
    | var name' initial' line' =>
      cases initial <;> cases initial' <;> simp_all [items, unlined, expressions]
    | _ => simp [head] at hhead
  | river name rate line =>
    cases t with
    | river name' rate' line' =>
      cases rate <;> cases rate' <;> simp_all [items, unlined, expressions]
    | _ => simp [head] at hhead
  | output name line =>
    cases t with
    | output name' line' => simp_all [items, unlined]
    | _ => simp [head] at hhead
  | combine name sources line =>
    cases t with
    | combine name' sources' line' =>
      simp only [items, List.cons.injEq, Form.word.injEq, true_and] at hitems
      rw [unlined, unlined, hitems.1, sumForms_injective hitems.2]
    | _ => simp [head] at hhead
  | flow source target line =>
    cases t with
    | flow source' target' line' => simp_all [items, unlined]
    | _ => simp [head] at hhead
  | dam name mode line =>
    cases t with
    | dam name' mode' line' =>
      cases mode <;> cases mode' <;>
        simp_all [items, unlined, expressions, DamMode.forms, DamMode.unlined]
    | _ => simp [head] at hhead

/-- The form of a statement gives back the statement without its lines. -/
theorem unlined_eq_of_forms :
    (∀ s : Statement, ∀ t : Statement, s.IsLegible → t.IsLegible → s.form = t.form →
      s.unlined = t.unlined) ∧
    ∀ ss ts, AreLegible ss → AreLegible ts → forms ss = forms ts →
      unlinedAll ss = unlinedAll ts := by
  apply induction_lists
  case simple =>
    intro s hs t h h' heq
    obtain ⟨hhead, hitems⟩ := Form.list.inj heq
    exact unlined_eq_simple hs h.showsParts h'.showsParts hhead hitems
  case block =>
    intro body line ih t h h' heq
    obtain ⟨hhead, hitems⟩ := Form.list.inj heq
    cases t with
    | block body' line' => rw [unlined, unlined, ih body' h h' hitems]
    | _ => simp [head] at hhead
  case nil =>
    intro ts _ _ heq
    cases ts with
    | nil => rfl
    | cons t ts => cases heq
  case cons =>
    intro s ss ihs ihss ts h h' heq
    cases ts with
    | nil => cases heq
    | cons t ts =>
      obtain ⟨hs, hss⟩ := areLegible_cons.1 h
      obtain ⟨ht, hts⟩ := areLegible_cons.1 h'
      obtain ⟨hform, hforms⟩ := List.cons.inj heq
      rw [unlinedAll, unlinedAll, ihs t hs ht hform, ihss ts hss hts hforms]

end Statement

/-- Statements that print as the same tree are equal apart from their lines. -/
theorem tree_unambiguous {s t : Statement} (hs : s.IsLegible) (ht : t.IsLegible)
    (h : s.tree = t.tree) : s.unlined = t.unlined := by
  have hplain : ∀ {u : Statement}, u.IsLegible → u.form.IsPlain :=
    fun hu => ⟨Statement.isWord_head _, Statement.arePlain_forms.1 _ hu⟩
  have hforms : s.form = t.form := by
    apply Form.eq_of_text_eq (hplain hs) (hplain ht)
    rw [Statement.text_forms.1 s hs, Statement.text_forms.1 t ht, h]
  exact Statement.unlined_eq_of_forms.1 s t hs ht hforms

/-- A difference and a negation, a variable called `group` and a river called `block`, with two
choices of lines. -/
theorem tree_unambiguous_renumbered :
    let s (a b c : ℕ) : Statement :=
      .block [.expr (.binary .sub (.unary .negate (.name "group" b) b)
        (.literal (.number 0.5) b) c) b, .combine "x" ["block", "x"] c] a
    (s 1 2 3).tree = "(block (; (- (- group) 0.5)) (combine x = block + x))" ∧
      (s 1 2 3).tree = (s 4 7 5).tree ∧ (s 1 2 3).unlined = (s 4 7 5).unlined := by
  intro s
  have hgroup : IsName "group" :=
    @Piece.spells_ofWord 'g' ['r', 'o', 'u', 'p'] rfl (List.all_eq_true.1 rfl)
  have hblock : IsName "block" :=
    @Piece.spells_ofWord 'b' ['l', 'o', 'c', 'k'] rfl (List.all_eq_true.1 rfl)
  have hx : IsName "x" := @Piece.spells_ofWord 'x' [] rfl (List.all_eq_true.1 rfl)
  have hfinite : (0.5 : Float).isFinite = true := by decide +kernel
  have hlegible : ∀ a b c, (s a b c).IsLegible := by
    intro a b c
    simp [s, Statement.IsLegible, Statement.simples, Statement.simplesAll, Statement.ShowsParts,
      Statement.expressions, Statement.mentioned, Statement.declared, Expr.IsLegible,
      Value.IsLegible, hgroup, hblock, hx, hfinite]
  have htree : (s 1 2 3).tree = (s 4 7 5).tree := by
    simp [s, Statement.tree, Statement.treeAll, Expr.tree]
  exact ⟨by decide +kernel, htree, tree_unambiguous (hlegible 1 2 3) (hlegible 4 7 5) htree⟩

end Watershed
