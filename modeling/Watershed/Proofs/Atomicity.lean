import Watershed.Proofs.Effects
import Watershed.Proofs.Scopes

/-!
# Statements that fail

A simple statement that fails has done nothing, but for what it may have written and for one river
it may have mentioned: the scopes are those before it, and so are the rivers, each in its place and
in its state. A river that was not known before is added only by an `output` or by an adjusted dam
that mentions it, and it is added in the default state.
-/

set_option autoImplicit false

namespace Watershed

/-! ## Mentioning a river -/

namespace Registry

/-- Putting a river into the state it is found in changes nothing. -/
theorem putEntry_of_find? {name : String} {r : River} {es : List (String × River)}
    (h : (es.find? (·.1 = name)).map Prod.snd = some r) : putEntry name r es = es := by
  induction es with
  | nil => cases h
  | cons e es ih =>
    rw [putEntry]
    by_cases he : e.1 = name
    · have hr : e.2 = r := by simpa [he] using h
      rw [if_pos he, ← he, ← hr]
    · have hmore : (es.find? (·.1 = name)).map Prod.snd = some r := by simpa [he] using h
      rw [if_neg he, ih hmore]

/-- A river that is not found is put at the end. -/
theorem putEntry_of_not_mem {name : String} {es : List (String × River)} (r : River)
    (h : name ∉ es.map Prod.fst) : putEntry name r es = es ++ [(name, r)] := by
  induction es with
  | nil => rfl
  | cons e es ih =>
    rw [List.map_cons, List.mem_cons, not_or] at h
    rw [putEntry, if_neg (Ne.symm h.1), ih h.2, List.cons_append]

/-- Mentioning a known river changes nothing. -/
theorem mention_of_mem {g : Registry} {name : String} (h : name ∈ g.names) :
    g.mention name = g := by
  have hsame : putEntry name (g.state name) g.entries = g.entries :=
    putEntry_of_find? (get?_of_mem_names h)
  obtain ⟨entries, nodup⟩ := g
  simp only [mention, update, put, id, hsame]

/-- Mentioning an unknown river adds it at the end, in its default state. -/
theorem entries_mention_of_not_mem {g : Registry} {name : String} (h : name ∉ g.names) :
    (g.mention name).entries = g.entries ++ [(name, ({} : River))] := by
  have hdefault : g.state name = {} := by
    rw [state, get?_of_not_mem_names h]
    rfl
  show putEntry name (g.state name) g.entries = _
  rw [hdefault, putEntry_of_not_mem _ h]

end Registry

/-! ## Failures -/

namespace Statement

/-- Whether a statement mentions a river before it can fail. -/
def MentionsFirst (name : String) (s : Statement) : Prop :=
  (∃ line, s = output name line) ∨ ∃ e line, s = dam name (.adjusted e) line

/-- What a simple statement that fails leaves of the rivers: all of them as they were, or with a
river mentioned that the statement mentions before it can fail. -/
theorem rivers_of_fault {s : Statement} (hblock : s.isBlock = false) {d : Day} {fault : Fault}
    (h : (s.exec d).fault = some fault) :
    (s.exec d).day.rivers = d.rivers ∨
      ∃ name, s.MentionsFirst name ∧ (s.exec d).day.rivers = d.rivers.mention name := by
  have heffect := riverEffect_exec hblock d
  rw [h] at heffect
  generalize (s.exec d).day.rivers = g at heffect ⊢
  cases heffect with
  | untouched => exact .inl rfl
  | unset => exact .inl rfl
  | reported name line => exact .inr ⟨name, .inl ⟨line, rfl⟩, rfl⟩
  | undammed name e line => exact .inr ⟨name, .inr ⟨e, line, rfl⟩, rfl⟩

/-- A statement that fails leaves the scopes as they are. -/
theorem environment_of_fault {s : Statement} {d : Day} {fault : Fault}
    (h : (s.exec d).fault = some fault) : (s.exec d).day.environment = d.environment := by
  rcases environment_exec_cases s d with ⟨_, _, _, _, -, -, hnone, -⟩ | ⟨-, henv⟩
  · rw [hnone] at h
    cases h
  · exact henv

/-- A dam that is adjusted to a negative factor, or to a NaN, fails, and its river keeps its
state. -/
theorem exec_dam_of_invalid {name : String} {e : Expr} {line : Nat} {d : Day} {factor : Float}
    (hfactor : (d.withRivers (d.rivers.mention name)).damFactor name (.adjusted e) line =
      .ok factor) (hinvalid : factor.isNaN = true ∨ factor < 0.0) :
    (dam name (.adjusted e) line).exec d =
      (d.withRivers (d.rivers.mention name)).stop (.invalidFactor name factor line) := by
  have hrefused : River.isFactor factor = false := by
    rw [River.isFactor, Bool.not_eq_false', Bool.or_eq_true, decide_eq_true_eq]
    exact hinvalid
  rw [exec, Day.setDam]
  simp only [hfactor, Day.given_ok, River.setFactor, hrefused, Bool.false_eq_true, if_false,
    Day.given_error]

/-- A simple statement that fails leaves the scopes as they are, and every river known before in
its place and in its state. The rivers are the same, unless the statement mentions one before it
can fail that was not known: then this one river is added at the end, in the default state. A dam
factor that is negative or a NaN is such a failure, and the river of the dam keeps its factor and
its level. -/
theorem failed_statement_atomic (d : Day) :
    (∀ (s : Statement) (fault : Fault), s.isBlock = false → (s.exec d).fault = some fault →
      (s.exec d).day.environment = d.environment ∧
      d.rivers.entries <+: (s.exec d).day.rivers.entries ∧
      ((s.exec d).day.rivers = d.rivers ∨
        ∃ name, s.MentionsFirst name ∧ name ∉ d.rivers.names ∧
          (s.exec d).day.rivers.entries = d.rivers.entries ++ [(name, ⟨0.0, 0.0, 1.0, 0.0⟩)])) ∧
    ∀ (name : String) (e : Expr) (line : Nat) (factor : Float),
      (d.withRivers (d.rivers.mention name)).damFactor name (.adjusted e) line = .ok factor →
      factor.isNaN = true ∨ factor < 0.0 →
      ((dam name (.adjusted e) line).exec d).fault = some (.invalidFactor name factor line) ∧
      (((dam name (.adjusted e) line).exec d).day.rivers.state name).factor =
        (d.rivers.state name).factor ∧
      (((dam name (.adjusted e) line).exec d).day.rivers.state name).level =
        (d.rivers.state name).level := by
  constructor
  · intro s fault hblock hfault
    refine ⟨environment_of_fault hfault, ?_⟩
    rcases rivers_of_fault hblock hfault with hsame | ⟨name, hfirst, hmention⟩
    · rw [hsame]
      exact ⟨List.prefix_refl _, .inl rfl⟩
    · -- A river that was mentioned before is not added again.
      by_cases hknown : name ∈ d.rivers.names
      · rw [hmention, Registry.mention_of_mem hknown]
        exact ⟨List.prefix_refl _, .inl rfl⟩
      · have hadded := Registry.entries_mention_of_not_mem hknown
        rw [hmention, hadded]
        exact ⟨List.prefix_append _ _, .inr ⟨name, hfirst, hknown, rfl⟩⟩
  · intro name e line factor hfactor hinvalid
    rw [exec_dam_of_invalid hfactor hinvalid]
    have hstate : (d.rivers.mention name).state name = d.rivers.state name :=
      d.rivers.state_mention name name
    exact ⟨rfl, congrArg River.factor hstate, congrArg River.level hstate⟩

/-- An `output` that the sink refuses adds its river; a dam adjusted to `-1.0` on a river that is
known changes nothing. -/
theorem failed_statement_atomic_refused :
    let d := Day.start (Registry.empty.mention "A") 1.0 1 (Sink.limited ⟨3, "closed"⟩)
    let shown := output "B" 2
    let dammed := dam "A" (.adjusted (.unary .negate (.literal (.number 1.0) 3) 3)) 3
    (shown.exec d).fault = some (.refusedOutput "closed" 2) ∧
      (shown.exec d).day.environment = d.environment ∧
      (shown.exec d).day.rivers.entries = d.rivers.entries ++ [("B", ⟨0.0, 0.0, 1.0, 0.0⟩)] ∧
      (dammed.exec d).fault = some (.invalidFactor "A" (-1.0) 3) ∧
      ((dammed.exec d).day.rivers.state "A").level = (d.rivers.state "A").level := by
  intro d shown dammed
  have hrefused : (shown.exec d).fault = some (.refusedOutput "closed" 2) := by decide +kernel
  have hfactor : (d.withRivers (d.rivers.mention "A")).damFactor "A"
      (.adjusted (.unary .negate (.literal (.number 1.0) 3) 3)) 3 = .ok (-1.0) := by
    rfl
  obtain ⟨hsimple, hdam⟩ := failed_statement_atomic d
  obtain ⟨henv, -, hrivers⟩ := hsimple shown _ rfl hrefused
  obtain ⟨hinvalid, -, hlevel⟩ := hdam "A" _ 3 (-1.0) hfactor (.inr (by decide +kernel))
  refine ⟨hrefused, henv, ?_, hinvalid, hlevel⟩
  rcases hrivers with hsame | ⟨name, ⟨line, hname⟩ | ⟨e, line, hname⟩, -, hadded⟩
  · have hlength : (shown.exec d).day.rivers.entries.length ≠ d.rivers.entries.length := by
      decide +kernel
    exact absurd (congrArg (fun g : Registry => g.entries.length) hsame) hlength
  · obtain ⟨rfl, -⟩ := Statement.output.inj hname
    exact hadded
  · exact Statement.noConfusion hname

end Statement

end Watershed
