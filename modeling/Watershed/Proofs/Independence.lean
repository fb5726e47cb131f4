import Watershed.Proofs.Locality
import Watershed.Proofs.Output.Refusal

/-!
# Statements that do not depend on each other

Two statements without a name in common do not see each other. Each of them leaves alone what the
other one's names stand for, so each goes its way as if the other were not there, before it or
after it. If one of them shows nothing, then not even the output tells in which order they were
executed; only rivers that are new may stand in another order.
-/

set_option autoImplicit false

namespace Watershed

namespace Statement

/-- The names that stand in a statement, at whatever depth and of whatever they are. -/
def identifiers (s : Statement) : List String :=
  s.simples.flatMap uses

/-- Whether a statement shows nothing, at whatever depth. -/
def Silent (s : Statement) : Prop :=
  ∀ t ∈ s.simples, t.shows = false

instance (s : Statement) : Decidable s.Silent :=
  inferInstanceAs (Decidable (∀ t ∈ s.simples, t.shows = false))

/-- What holds of the names that stand in a statement holds of those of its simple statements. -/
theorem forall_uses_of_identifiers {P : String → Prop} {s : Statement}
    (h : ∀ x ∈ s.identifiers, P x) : ∀ t ∈ s.simples, ∀ x ∈ t.uses, P x := by
  intro t ht x hx
  exact h x (List.mem_flatMap.2 ⟨t, ht, hx⟩)

end Statement

/-! ## What a statement leaves alone -/

/-- What stands under a name: the river, and the variable of the innermost scope. -/
def Day.under (d : Day) (x : String) : Option River × Option Value :=
  (d.rivers.get? x, d.environment.innermost x)

/-- Environments are the same if they bind the same in the innermost scope and have the same scopes
around it. -/
theorem Environment.eq_of_innermost {env env' : Environment}
    (hinnermost : ∀ x, env.innermost x = env'.innermost x)
    (henclosing : env.enclosing = env'.enclosing) : env = env' := by
  obtain ⟨innermost, enclosing⟩ := env
  obtain ⟨innermost', enclosing'⟩ := env'
  obtain rfl : innermost = innermost' := funext hinnermost
  obtain rfl : enclosing = enclosing' := henclosing
  rfl

/-- A name means the same if the innermost scopes agree on it and the scopes around them are the
same. -/
theorem Environment.lookup_congr {env env' : Environment} {x : String}
    (hinnermost : env.innermost x = env'.innermost x)
    (henclosing : env.enclosing = env'.enclosing) : env.lookup x = env'.lookup x := by
  rw [lookup, lookup, List.findSome?_cons, List.findSome?_cons, hinnermost, henclosing]

/-- Mentioning rivers of no interest leaves the rivers of interest as they are. -/
theorem Registry.only_mentionAll {p : String → Bool} {names : List String}
    (h : ∀ x ∈ names, p x = false) (g : Registry) : (g.mentionAll names).only p = g.only p := by
  induction names generalizing g with
  | nil => rfl
  | cons name names ih =>
    rw [List.forall_mem_cons] at h
    exact (ih h.2 (g.mention name)).trans (only_put_of_neg h.1 _ g)

namespace Statement

/-- A statement leaves rivers alone that it does not mention. -/
theorem only_exec {p : String → Bool} {s : Statement}
    (hs : ∀ t ∈ s.simples, ∀ x ∈ t.mentioned, p x = false) (d : Day) :
    (s.exec d).day.rivers.only p = d.rivers.only p := by
  refine (rivers_exec_induction_of (P := fun t => ∀ x ∈ t.mentioned, p x = false)
    (R := fun g g' => g'.only p = g.only p) ?_ ?_ ?_).1 s hs d
  · intro g
    rfl
  · intro g g' g'' hfirst hsecond
    exact hsecond.trans hfirst
  · intro d t g fault ht heffect
    cases heffect with
    | untouched => rfl
    | unset => rfl
    | set name => exact Registry.only_put_of_neg (ht name (List.mem_singleton.2 rfl)) _ _
    | reported name => exact Registry.only_put_of_neg (ht name (List.mem_singleton.2 rfl)) _ _
    | combined name sources =>
      obtain ⟨hsources, hname⟩ := List.forall_mem_append.1 ht
      rw [← Registry.only_mentionAll hsources d.rivers]
      exact Registry.only_put_of_neg (hname name (List.mem_singleton.2 rfl)) _ _
    | passedOn source target =>
      obtain ⟨hsource, htarget⟩ := List.forall_mem_cons.1 ht
      rw [← Registry.only_put_of_neg hsource (d.rivers.state source) d.rivers]
      exact Registry.only_put_of_neg (htarget target (List.mem_singleton.2 rfl)) _ _
    | undammed name => exact Registry.only_put_of_neg (ht name (List.mem_singleton.2 rfl)) _ _
    | dammed name => exact Registry.only_put_of_neg (ht name (List.mem_singleton.2 rfl)) _ _

/-- A statement in which a name does not stand does not declare it. -/
theorem ne_var_of_not_mem_identifiers {s : Statement} {x : String} (h : x ∉ s.identifiers)
    (initial : Option Expr) (line : Nat) : s ≠ var x initial line := by
  rintro rfl
  exact h (by simp [identifiers, simples, uses, declared])

/-- A statement leaves alone what stands under names that are not in it. -/
theorem under_exec {s : Statement} {x : String} (h : x ∉ s.identifiers) (d : Day) :
    (s.exec d).day.under x = d.under x := by
  have hriver : (s.exec d).day.rivers.get? x = d.rivers.get? x := by
    refine Registry.get?_eq_of_only (only_exec (p := fun y => decide (y = x)) ?_ d) (by simp)
    intro t ht y hy
    rw [decide_eq_false_iff_not]
    rintro rfl
    exact h (List.mem_flatMap.2 ⟨t, ht, mem_uses_of_mentioned hy⟩)
  have hvariable := innermost_exec d (ne_var_of_not_mem_identifiers h)
  rw [Day.under, Day.under, hriver, hvariable]

end Statement

/-! ## Sinks that never refuse -/

/-- The day with a sink that has taken nothing and never refuses. -/
def Day.free (d : Day) : Day :=
  d.withSink Sink.unlimited

namespace Statement

/-- A sink that has taken nothing and never refuses has taken the writes of a statement afterwards.
-/
theorem sink_exec_free (s : Statement) (d : Day) :
    (s.exec d.free).day.sink = ⟨written (s.writes d.free), none⟩ := by
  have hsink : (s.exec d.free).day.sink = ⟨ByteArray.empty ++ written (s.writes d.free), none⟩ :=
    Day.sink_of_follows rfl (follows_writes.1 s d.free Sink.unlimited rfl)
  rw [hsink, ByteArray.empty_append]

/-- Into a sink that never refuses, a statement writes what it would write into a new one, after
what was taken before. -/
theorem exec_of_free (s : Statement) {d : Day} (hd : d.sink.limit = none) :
    s.exec d = ⟨(s.exec d.free).day.withSink
      ⟨d.sink.taken ++ (s.exec d.free).day.sink.taken, none⟩, (s.exec d.free).fault⟩ := by
  have hfollows := follows_writes.1 s d.free d.sink rfl
  obtain ⟨rainfall, environment, rivers, taken, limit⟩ := d
  obtain rfl : limit = none := hd
  rw [Sink.writeAll_unlimited] at hfollows
  rw [sink_exec_free]
  exact hfollows

/-- A statement that shows nothing writes nothing. -/
theorem taken_exec_of_silent {s : Statement} (hs : s.Silent) (d : Day) :
    (s.exec d.free).day.sink.taken = ByteArray.empty := by
  have hnone : s.writes d.free = [] := by
    rw [List.eq_nil_iff_forall_not_mem]
    intro w hw
    obtain ⟨t, ht, hshows, -⟩ := mem_writes.1 s d.free w hw
    rw [hs t ht] at hshows
    cases hshows
  rw [sink_exec_free, hnone]
  rfl

end Statement

/-! ## Statements before and after each other -/

namespace Day.Alike

variable {p : String → Bool} {d d' : Day} {s : Statement}

/-- A statement binds the same in the innermost scopes of two days that are alike. -/
theorem innermost_exec (h : d.Alike p d') (hs : ∀ x ∈ s.identifiers, p x = true) {x : String}
    (hx : d.environment.innermost x = d'.environment.innermost x) :
    (s.exec d).day.environment.innermost x = (s.exec d').day.environment.innermost x := by
  obtain ⟨hfault, -⟩ := alike_exec.1 s (Statement.forall_uses_of_identifiers hs) d d' h
  -- The faults are the same, so a declaration succeeds on both days or on none.
  rcases Statement.environment_exec_cases s d with
    ⟨name, initial, line, value, rfl, hvalue, hnone, henv⟩ | ⟨hfails, henv⟩
  · rcases Statement.environment_exec_cases (.var name initial line) d' with
      ⟨_, _, _, value', heq, hvalue', -, henv'⟩ | ⟨hfails', -⟩
    · cases heq
      have hinitial : d.initialValue initial = d'.initialValue initial := by
        cases initial with
        | none => rfl
        | some e =>
          exact h.eval fun y hy => Statement.forall_uses_of_identifiers hs _ (.head _) y
            (Statement.mem_uses_of_expressions (.head _) hy)
      rw [hvalue, hvalue'] at hinitial
      cases hinitial
      rw [henv, henv']
      show (if x = name then _ else _) = if x = name then _ else _
      rw [hx]
    · exact absurd (hfault.symm.trans hnone) (hfails' name initial line rfl)
  · rcases Statement.environment_exec_cases s d' with
      ⟨name, initial, line, _, hvar, -, hnone, -⟩ | ⟨-, henv'⟩
    · exact absurd (hfault.trans hnone) (hfails name initial line hvar)
    · rw [henv, henv', hx]

end Day.Alike

namespace Statement

variable {p : String → Bool} {s t : Statement}

/-- A statement leaves a day alike as far as other names go. -/
theorem alike_free_exec (hs : ∀ x ∈ s.identifiers, p x = false) (d : Day) :
    (s.exec d).day.free.Alike p d.free := by
  refine ⟨rainfall_exec.1 s d, rfl, fun x hx => ?_, ?_⟩
  · have hne : x ∉ s.identifiers := fun hmem => by simp [hs x hmem] at hx
    exact Environment.lookup_congr (innermost_exec d (ne_var_of_not_mem_identifiers hne))
      (enclosing_exec.1 s d)
  · exact only_exec (fun t ht x hx =>
      forall_uses_of_identifiers hs t ht x (mem_uses_of_mentioned hx)) d

/-- What a statement comes to after another one, as far as its own names go, is what it comes to
without the other one. -/
theorem exec_after (hs : ∀ x ∈ s.identifiers, p x = false) (ht : ∀ x ∈ t.identifiers, p x = true)
    {d : Day} (hd : d.sink.limit = none) :
    (t.exec (s.exec d).day).fault = (t.exec d).fault ∧
    (t.exec (s.exec d).day).day.sink = ⟨d.sink.taken ++ (s.exec d.free).day.sink.taken ++
      (t.exec d.free).day.sink.taken, none⟩ ∧
    ∀ x, p x = true → (t.exec (s.exec d).day).day.under x = (t.exec d).day.under x := by
  have hnext : (s.exec d).day.sink = ⟨d.sink.taken ++ (s.exec d.free).day.sink.taken, none⟩ :=
    congrArg (fun o : Day.Outcome => o.day.sink) (exec_of_free s hd)
  have hafter := exec_of_free t (congrArg Sink.limit hnext)
  have halike := alike_free_exec hs d
  obtain ⟨hfault, hday⟩ := alike_exec.1 t (forall_uses_of_identifiers ht) _ _ halike
  rw [hafter, exec_of_free t hd]
  refine ⟨hfault, ?_, fun x hx => ?_⟩
  · rw [hnext, hday.sink]
    rfl
  · have hriver := Registry.get?_eq_of_only hday.rivers hx
    have hne : x ∉ s.identifiers := fun hmem => by simp [hs x hmem] at hx
    have hvariable := halike.innermost_exec ht (congrArg Prod.snd (under_exec hne d))
    exact Prod.ext hriver hvariable

/-- Executing two statements of which the first succeeds is executing the second after it. -/
theorem execAll_pair {d : Day} (h : (s.exec d).fault = none) :
    execAll [s, t] d = t.exec (s.exec d).day := by
  have hlast : ∀ o : Day.Outcome, o.andThen (execAll []) = o := by
    rintro ⟨d, _ | fault⟩ <;> rfl
  rw [execAll_cons, Day.Outcome.andThen, h]
  simp only [execAll_cons, hlast]

/-- If statements in a row succeed, so does the first of them. -/
theorem fault_exec_of_execAll_cons {ss : List Statement} {d : Day}
    (h : (execAll (s :: ss) d).fault = none) : (s.exec d).fault = none := by
  rw [execAll_cons, Day.Outcome.andThen] at h
  split at h
  · assumption
  · exact h

/-- Statements without a name in common, of which one at least shows nothing, may be executed in
either order, with a sink that never refuses. If they succeed in one order, then so they do in the
other, and they write the same, leave the same scopes, and leave every river in the same state. -/
theorem independent_commute (s t : Statement) (d : Day)
    (hdisjoint : ∀ x ∈ s.identifiers, x ∉ t.identifiers) (hsilent : s.Silent ∨ t.Silent)
    (hsink : d.sink.limit = none) (h : (execAll [s, t] d).fault = none) :
    (execAll [t, s] d).fault = none ∧
    (execAll [t, s] d).day.sink = (execAll [s, t] d).day.sink ∧
    (execAll [t, s] d).day.environment = (execAll [s, t] d).day.environment ∧
    ∀ x, (execAll [t, s] d).day.rivers.get? x = (execAll [s, t] d).day.rivers.get? x := by
  -- Every name counts for one of the statements: for the first if it stands in it.
  obtain ⟨hfault, htaken, hunder⟩ := exec_after (p := fun x => decide (x ∉ s.identifiers))
    (s := s) (t := t) (fun x hx => by simpa using hx)
    (fun x hx => decide_eq_true fun hmem => hdisjoint x hmem hx) hsink
  obtain ⟨hfault', htaken', hunder'⟩ := exec_after (p := fun x => decide (x ∈ s.identifiers))
    (s := t) (t := s) (fun x hx => decide_eq_false fun hmem => hdisjoint x hmem hx)
    (fun x hx => decide_eq_true hx) hsink
  have hs : (s.exec d).fault = none := fault_exec_of_execAll_cons h
  rw [execAll_pair hs] at h ⊢
  have ht : (t.exec d).fault = none := hfault.symm.trans h
  rw [execAll_pair ht]
  have hboth : ∀ x, (s.exec (t.exec d).day).day.under x = (t.exec (s.exec d).day).day.under x := by
    intro x
    by_cases hx : x ∈ s.identifiers
    · rw [hunder' x (decide_eq_true hx), under_exec (hdisjoint x hx)]
    · rw [hunder x (decide_eq_true hx), under_exec hx]
  refine ⟨hfault'.trans hs, ?_, ?_, fun x => congrArg Prod.fst (hboth x)⟩
  · rw [htaken, htaken']
    rcases hsilent with hsilent | hsilent
    · rw [taken_exec_of_silent hsilent]
      simp
    · rw [taken_exec_of_silent hsilent]
      simp
  · refine Environment.eq_of_innermost (fun x => congrArg Prod.snd (hboth x)) ?_
    rw [enclosing_exec.1, enclosing_exec.1, enclosing_exec.1, enclosing_exec.1]

/-- Two blocks that each bring a new river: in the other order they do the same, although the
rivers are known in another order. -/
theorem independent_commute_new_rivers :
    let d := Day.start Registry.empty 2.0 1 Sink.unlimited
    let s := block [var "x" (some (.name "day" 1)) 1, river "A" (some (.name "x" 2)) 2] 1
    let t := block [river "B" none 4, dam "B" (.adjusted (.name "damLevel" 5)) 5, output "B" 6] 4
    (execAll [s, t] d).day.rivers.names = ["A", "B"] ∧
      (execAll [t, s] d).day.rivers.names = ["B", "A"] ∧
      (execAll [t, s] d).fault = none ∧
      (execAll [t, s] d).day.sink = (execAll [s, t] d).day.sink ∧
      (execAll [t, s] d).day.environment = (execAll [s, t] d).day.environment ∧
      (execAll [t, s] d).day.rivers.get? "A" = (execAll [s, t] d).day.rivers.get? "A" := by
  intro d s t
  have hsucceeds : (execAll [s, t] d).fault = none := by decide +kernel
  obtain ⟨hfault, hsink, henv, hrivers⟩ := independent_commute s t d (by decide)
    (.inl (by decide)) rfl hsucceeds
  exact ⟨by decide +kernel, by decide +kernel, hfault, hsink, henv, hrivers "A"⟩

end Statement

end Watershed
