import Watershed.Proofs.Atomicity
import Watershed.Proofs.Diagnostics
import Watershed.Proofs.Doubles
import Watershed.Proofs.Grammar.Items
import Watershed.Proofs.Scan.Words

/-!
# Combined rivers and sums

A river can be set to the sum of other rivers in two ways: by `combine`, which adds up what leaves
its sources, and by `river` with an expression that adds up their names. If all sources are known,
then both come to the same. The expression is read as a sum that associates to the left, which is
the order in which `combine` adds; and the negative zero that `combine` starts from changes nothing.
-/

set_option autoImplicit false

namespace Watershed

/-! ## Sums of names -/

/-- The tokens of a sum of names. -/
def sumTokens (first : String) (more : List String) : List Token :=
  .name first :: more.flatMap fun n => [.sign .plus, .name n]

/-- The tokens by which a river is set to a sum, after a word that says how. -/
def settingTokens (word : Keyword) (x a : String) (ns : List String) : List Token :=
  .keyword word :: .name x :: .sign .equals :: sumTokens a ns

/-- The sums of names as expressions, which associate to the left. -/
inductive SumOf : List String → Expr → Prop
  | one (n : String) (line : Nat) : SumOf [n] (.name n line)
  | add {ns : List String} {e : Expr} (sum : SumOf ns e) (n : String) (line line' : Nat) :
      SumOf (ns ++ [n]) (.binary .add e (.name n line) line')

/-- A further source adds what leaves it to the sum. -/
theorem Registry.totalOutflow_concat (g : Registry) (ns : List String) (n : String) :
    g.totalOutflow (ns ++ [n]) = g.totalOutflow ns + (g.state n).outflow := by
  simp only [totalOutflow, List.foldl_append, List.foldl_cons, List.foldl_nil]

/-- The name of a known river means what leaves it, whatever the scopes bind. -/
theorem resolve_of_mem_names {g : Registry} {n : String} (h : n ∈ g.names) (env : Environment)
    (line : Nat) : resolve g env n line = .ok (.number (g.state n).outflow) := by
  rw [resolve, Registry.get?_of_mem_names h]

/-- A sum of known rivers has the value that `combine` comes to. -/
theorem SumOf.eval {ns : List String} {e : Expr} (h : SumOf ns e) {g : Registry}
    (hknown : ∀ n ∈ ns, n ∈ g.names) (env : Environment) :
    e.eval g env = .ok (.number (g.totalOutflow ns)) := by
  induction h with
  | one n line =>
    have htotal : g.totalOutflow [n] = (g.state n).outflow := negZero_add _
    rw [Expr.eval, resolve_of_mem_names (hknown n (List.mem_singleton.2 rfl)), htotal]
  | @add ns e sum n line line' ih =>
    obtain ⟨hsum, hlast⟩ := List.forall_mem_append.1 hknown
    have hn := resolve_of_mem_names (hlast n (List.mem_singleton.2 rfl)) env line
    rw [Expr.eval, ih hsum, Expr.eval, hn, Registry.totalOutflow_concat]
    rfl

/-! ## Reading sums -/

namespace Grammar

/-- Lexemes with the tokens of further sources are read as further sources. -/
theorem furtherSources_of_tokens {p : List Lexeme} {ns : List String}
    (h : p.map Lexeme.token = ns.flatMap fun n => [.sign .plus, .name n]) :
    FurtherSources p ns := by
  induction ns generalizing p with
  | nil =>
    obtain rfl := List.map_eq_nil_iff.1 h
    exact .nil
  | cons n ns ih =>
    obtain ⟨l, _, rfl, hplus, hmore⟩ := List.map_eq_cons_iff.1 h
    obtain ⟨m, p, rfl, hname, hrest⟩ := List.map_eq_cons_iff.1 hmore
    exact .cons hplus hname (ih hrest)

/-- Further sources behind a sum make for a longer sum. -/
theorem exists_sum_of_furtherSources {p q : List Lexeme} {ms ns : List String} {e : Expr}
    (hfirst : Derives (some .sum) q e) (hsum : SumOf ns e) (h : FurtherSources p ms) :
    ∃ e', Derives (some .sum) (q ++ p) e' ∧ SumOf (ns ++ ms) e' := by
  induction h generalizing q ns e with
  | nil =>
    rw [List.append_nil, List.append_nil]
    exact ⟨e, hfirst, hsum⟩
  | @cons l m p n ms plus source more ih =>
    -- What was read so far is the left operand of the next sign.
    have hlonger : Derives (some .sum) (q ++ [l, m]) (.binary .add e (.name n m.line) l.line) := by
      refine .chain (c := .binary .add) hfirst ?_ (.tighter (.name source))
      rw [plus]
      exact List.mem_cons_self ..
    obtain ⟨e', hderives, hall⟩ := ih hlonger (hsum.add n m.line l.line)
    rw [List.append_assoc] at hderives hall
    exact ⟨e', hderives, hall⟩

/-- The lexemes of a sum of names are read as this sum. -/
theorem exists_sum_of_tokens {p : List Lexeme} {a : String} {ns : List String}
    (h : p.map Lexeme.token = sumTokens a ns) :
    ∃ e, Derives (some .disjunction) p e ∧ SumOf (a :: ns) e := by
  obtain ⟨m, p, rfl, hname, hmore⟩ := List.map_eq_cons_iff.1 h
  have hfirst : Derives (some .sum) [m] (.name a m.line) := .tighter (.tighter (.name hname))
  obtain ⟨e, hderives, hsum⟩ := exists_sum_of_furtherSources hfirst (.one a m.line)
    (furtherSources_of_tokens hmore)
  exact ⟨e, .tighter (.tighter (.tighter (.tighter hderives))), hsum⟩

/-- Lexemes with the tokens of a combination are read as this combination. -/
theorem exists_simple_combine {p : List Lexeme} {x a : String} {ns : List String}
    (h : p.map Lexeme.token = settingTokens .combine x a ns) :
    ∃ line, Simple p (.combine x (a :: ns) line) := by
  obtain ⟨k, _, rfl, hword, h⟩ := List.map_eq_cons_iff.1 h
  obtain ⟨n, _, rfl, hriver, h⟩ := List.map_eq_cons_iff.1 h
  obtain ⟨q, _, rfl, hequals, h⟩ := List.map_eq_cons_iff.1 h
  obtain ⟨m, p, rfl, hsource, h⟩ := List.map_eq_cons_iff.1 h
  exact ⟨k.line, .combine hword hriver hequals hsource (furtherSources_of_tokens h)⟩

/-- Lexemes with the tokens of a river that is set to a sum are read as such a statement. -/
theorem exists_simple_river {p : List Lexeme} {x a : String} {ns : List String}
    (h : p.map Lexeme.token = settingTokens .river x a ns) :
    ∃ line e, Simple p (.river x (some e) line) ∧ SumOf (a :: ns) e := by
  obtain ⟨k, _, rfl, hword, h⟩ := List.map_eq_cons_iff.1 h
  obtain ⟨n, _, rfl, hriver, h⟩ := List.map_eq_cons_iff.1 h
  obtain ⟨q, p, rfl, hequals, h⟩ := List.map_eq_cons_iff.1 h
  obtain ⟨e, hderives, hsum⟩ := exists_sum_of_tokens h
  exact ⟨k.line, e, .river hword hriver (.some hequals hderives), hsum⟩

end Grammar

/-- What a scan gives apart from the lexeme that stands for the end of the text. -/
theorem Scan.Gives.exists_lexemes {k : Scan} {tokens : List Token} (h : k.Gives tokens) :
    ∃ p e, k.lexemes = p ++ [e] ∧ p.map Lexeme.token = tokens ∧ e.token = .endOfText := by
  obtain ⟨p, q, hk, hp, hq⟩ := List.map_eq_append_iff.1 h.2
  obtain ⟨e, _, rfl, he, hnil⟩ := List.map_eq_cons_iff.1 hq
  obtain rfl := List.map_eq_nil_iff.1 hnil
  exact ⟨p, e, hk, hp, he⟩

/-- A text is read as a program of one statement if its tokens are those of the statement. -/
theorem Program.ofText_of_simple {text : String} {p : List Lexeme} {e : Lexeme} {s : Statement}
    (herrors : (Scan.ofText text).errors = []) (hlexemes : (Scan.ofText text).lexemes = p ++ [e])
    (he : e.token = .endOfText) (h : Grammar.Simple p s) : Program.ofText text = .ok [s] := by
  have hend : ∀ l ∈ [e].head?, Grammar.endsPassage false l.token = true := by
    intro l hl
    cases hl
    rw [he]
    rfl
  have hread : Grammar.passage false (Scan.ofText text).lexemes = ⟨[s], [], [e]⟩ := by
    rw [hlexemes]
    exact Grammar.passage_append (.last h) hend
  rw [Program.ofText_eq_ok_iff, hread, herrors]
  exact ⟨List.mergeSort_nil, rfl⟩

/-! ## Setting a river to a sum -/

/-- Mentioning known rivers changes nothing. -/
theorem Registry.mentionAll_of_subset {g : Registry} {names : List String}
    (h : ∀ n ∈ names, n ∈ g.names) : g.mentionAll names = g := by
  induction names with
  | nil => rfl
  | cons name names ih =>
    rw [List.forall_mem_cons] at h
    show (g.mention name).mentionAll names = g
    rw [mention_of_mem h.1, ih h.2]

/-- Combining known rivers is the same as setting a river to the sum of their names. -/
theorem Statement.exec_combine_of_sum {ns : List String} {e : Expr} (hsum : SumOf ns e) {d : Day}
    (hknown : ∀ n ∈ ns, n ∈ d.rivers.names) (x : String) (line line' : Nat) :
    (combine x ns line).exec d = (river x (some e) line').exec d := by
  have hvalue : d.eval e = .ok (.number (d.rivers.totalOutflow ns)) :=
    hsum.eval hknown d.environment
  rw [exec, exec, Day.combine, Day.setRiver, Registry.mentionAll_of_subset hknown]
  simp only [hvalue]
  rfl

/-- The text by which a river is set to a sum, after a word that says how. -/
def settingText (word : Keyword) (x a : String) (ns : List String) : String :=
  word.spelling ++ " " ++ x ++ " = " ++ " + ".intercalate (a :: ns)

/-- A sum of names is written with a space before and behind each plus sign. -/
theorem written_sum {a : String} {ns : List String}
    (h : ∀ n ∈ a :: ns, Spells (.name n) n.toList) :
    Written (a.toList ++ ns.flatMap fun n => ' ' :: '+' :: ' ' :: n.toList) (sumTokens a ns) := by
  induction ns generalizing a with
  | nil =>
    rw [List.flatMap_nil, List.append_nil]
    exact .last rfl (h a (List.mem_singleton.2 rfl))
  | cons b ns ih =>
    obtain ⟨ha, hmore⟩ := List.forall_mem_cons.1 h
    exact .more rfl ha (.more rfl (.sign .plus) (ih hmore))

/-- The text that sets a river to a sum is written with spaces between its tokens. -/
theorem written_settingText {x a : String} {ns : List String} (word : Keyword)
    (h : ∀ n ∈ x :: a :: ns, Spells (.name n) n.toList) :
    Written (settingText word x a ns).toList (settingTokens word x a ns) := by
  obtain ⟨hx, hsources⟩ := List.forall_mem_cons.1 h
  have hsum : (" + ".intercalate (a :: ns)).toList =
      a.toList ++ ns.flatMap fun n => ' ' :: '+' :: ' ' :: n.toList := by
    clear h hx hsources
    rw [String.toList_intercalate]
    induction ns generalizing a with
    | nil => simp
    | cons b ns ih => simp_all
  have htext : (settingText word x a ns).toList = word.spelling.toList ++ ' ' :: (x.toList ++
      ' ' :: (['='] ++ ' ' :: (" + ".intercalate (a :: ns)).toList)) := by
    simp [settingText, String.toList_append]
  rw [htext, hsum]
  exact .more rfl (.keyword word) (.more rfl hx (.more rfl (.sign .equals) (written_sum hsources)))

/-- Setting a river to the sum of others by `combine` is the same as writing the sum out after
`river`. Whatever texts are read as the one and as the other, they are programs of one statement
each, and on every day that knows the rivers of the sum, both statements succeed and come to the
same, also if a river occurs several times or is the one that is set. Names written out with signs
and spaces between them are such texts. -/
theorem combine_like_sum (x a : String) (ns : List String) :
    (∀ text text' : String, (Scan.ofText text).Gives (settingTokens .combine x a ns) →
      (Scan.ofText text').Gives (settingTokens .river x a ns) →
      ∃ combined set, Program.ofText text = .ok [combined] ∧ Program.ofText text' = .ok [set] ∧
        ∀ d : Day, (∀ n ∈ a :: ns, n ∈ d.rivers.names) →
          (combined.exec d).fault = none ∧ combined.exec d = set.exec d) ∧
    ((∀ n ∈ x :: a :: ns, Spells (.name n) n.toList) → ∀ word : Keyword,
      (Scan.ofText (settingText word x a ns)).Gives (settingTokens word x a ns)) := by
  refine ⟨?_, fun hnames word => Scan.gives_of_written (written_settingText word hnames)⟩
  intro text text' htext htext'
  obtain ⟨p, e, hlexemes, hp, he⟩ := htext.exists_lexemes
  obtain ⟨p', e', hlexemes', hp', he'⟩ := htext'.exists_lexemes
  obtain ⟨line, hcombine⟩ := Grammar.exists_simple_combine hp
  obtain ⟨line', sum, hriver, hsum⟩ := Grammar.exists_simple_river hp'
  refine ⟨_, _, Program.ofText_of_simple htext.1 hlexemes he hcombine,
    Program.ofText_of_simple htext'.1 hlexemes' he' hriver, fun d hknown => ⟨rfl, ?_⟩⟩
  exact Statement.exec_combine_of_sum hsum hknown x line line'

/-- `B` is set to a sum in which it occurs itself, on a day that has a variable called `A` beside
the river. -/
theorem combine_like_sum_of_itself :
    let d : Day := ⟨2.0, Environment.root.define "A" .nil,
      (Registry.empty.put "A" { own := 1.5 }).put "B" { own := 2.0 }, Sink.unlimited⟩
    ∃ combined set, Program.ofText "combine B = A + B + A" = .ok [combined] ∧
      Program.ofText "river B = A + B + A" = .ok [set] ∧
      (combined.exec d).fault = none ∧ combined.exec d = set.exec d := by
  intro d
  obtain ⟨hread, hwritten⟩ := combine_like_sum "B" "A" ["B", "A"]
  have hA : Spells (.name "A") "A".toList :=
    .name (by decide) (by simp) (by intro word; cases word <;> decide) (by decide)
  have hB : Spells (.name "B") "B".toList :=
    .name (by decide) (by simp) (by intro word; cases word <;> decide) (by decide)
  have hnames : ∀ n ∈ ["B", "A", "B", "A"], Spells (.name n) n.toList := by
    simp only [List.forall_mem_cons]
    exact ⟨hB, hA, hB, hA, nofun⟩
  have hgives := hwritten hnames
  obtain ⟨combined, set, hcombined, hset, hsame⟩ :=
    hread "combine B = A + B + A" "river B = A + B + A" (hgives .combine) (hgives .river)
  exact ⟨combined, set, hcombined, hset, hsame d (by decide)⟩

end Watershed
