import Watershed.Proofs.Output.Runs
import Watershed.Proofs.Resemblance

/-!
# Days that repeat

If the expressions of a program see neither the number of the day nor the levels, and no river is
also a variable, then every day goes like the first: from the second day on all rivers are known
already, but the first day would have stopped at a river it did not know.
-/

set_option autoImplicit false

namespace Watershed

/-- Whether expressions see neither the number of the day nor levels, and no river bears the name
of a variable. -/
structure Steady (program : Program) : Prop where
  day : "day" ∉ namesUsedBy program
  damLevel : "damLevel" ∉ namesUsedBy program
  declared : ∀ x ∈ riversOf program, x ∉ variablesOf program
  reserved : ∀ x ∈ riversOf program, x ≠ "rainfall" ∧ x ≠ "inflow"

namespace Steady

variable {program : Program} {g : Registry} {rainfall : Float}

/-- The statements of a steady program bind none of its rivers. -/
theorem fits (h : Steady program) :
    Fits (namesUsedBy program) (riversOf program) (Statement.simplesAll program) := by
  refine fits_namesUsedBy (fun x hx hriver => h.declared x hriver hx) ?_
  intro x hx hused hriver
  simp only [List.mem_cons, List.not_mem_nil, or_false] at hx
  rcases hx with rfl | rfl
  · exact (h.reserved _ hriver).2 rfl
  · exact h.damLevel hused

/-- The first day of a steady program resembles every later one, the rivers that it does not know
yet being hidden. -/
theorem resembles_start (h : Steady program) (hg : ∀ x ∈ g.names, x ∈ riversOf program)
    (rainfall : Float) (number : Nat) (k : Sink) :
    (Day.start Registry.empty rainfall 1 k).Resembles (namesUsedBy program) (riversOf program)
      (Day.start g rainfall number k) := by
  refine Day.resembles_start rainfall k (fun hused => absurd hused h.day) ?_
    (fun hused => absurd hused h.damLevel) ?_ fun x _ hx => .inr (hg x hx)
  · intro x hx hused hriver
    simp only [List.mem_cons, List.not_mem_nil, or_false] at hx
    rcases hx with rfl | rfl
    · exact (h.reserved _ hriver).1 rfl
    · exact h.day hused
  · intro x _ hx
    cases hx

/-- If the first day succeeds, then so does every day that begins with no rivers but those of the
program, and it shows the same and comes to the same flows. -/
theorem same_outcome (h : Steady program)
    (hfirst : (Day.freeOutcome program rainfall 1 Registry.empty).fault = none)
    (hg : ∀ x ∈ g.names, x ∈ riversOf program) (number : Nat) :
    (Day.freeOutcome program rainfall number g).fault = none ∧
    (Day.freeOutcome program rainfall number g).day.sink =
      (Day.freeOutcome program rainfall 1 Registry.empty).day.sink ∧
    ∀ x, ((Day.freeOutcome program rainfall 1 Registry.empty).day.rivers.state x).SameFlows
      ((Day.freeOutcome program rainfall number g).day.rivers.state x) := by
  have hstart := h.resembles_start hg rainfall number Sink.unlimited
  rcases resembles_exec.2 program h.fits _ _ hstart with ⟨hfault, hdays⟩ | ⟨fault, hfault, -⟩
  · exact ⟨hfault.symm.trans hfirst, hdays.sink.symm, hdays.flows⟩
  · cases hfirst.symm.trans hfault

/-- A day of a steady program succeeds if the first one does, and mentions the rivers of the
program. -/
theorem after_succ (h : Steady program) {config : Config} {n : Nat}
    (hfirst : (Day.freeOutcome program config.rainfall 1 Registry.empty).fault = none)
    (hfault : ((Simulation.fresh config).after program n).fault = none)
    (hnames : ∀ x ∈ ((Simulation.fresh config).after program n).rivers.names,
      x ∈ riversOf program) :
    ((Simulation.fresh config).after program (n + 1)).fault = none ∧
    ((Simulation.fresh config).after program (n + 1)).rivers.names =
      addNames ((Simulation.fresh config).after program n).rivers.names (riversOf program) := by
  have hday := (h.same_outcome hfirst hnames (n + 1)).1
  rw [Simulation.after_succ hfault hday]
  exact ⟨rfl, Day.names_freeOutcome hday⟩

/-- All days succeed if the first does, and know no rivers but those of the program. -/
theorem succeeds_after (h : Steady program) {config : Config}
    (hfirst : (Day.freeOutcome program config.rainfall 1 Registry.empty).fault = none) (n : Nat) :
    ((Simulation.fresh config).after program n).fault = none ∧
    ∀ x ∈ ((Simulation.fresh config).after program n).rivers.names, x ∈ riversOf program := by
  induction n with
  | zero =>
    refine ⟨rfl, fun x hx => ?_⟩
    cases hx
  | succ n ih =>
    obtain ⟨hfault, hnames⟩ := ih
    obtain ⟨hnext, hadded⟩ := h.after_succ hfirst hfault hnames
    refine ⟨hnext, fun x hx => ?_⟩
    rw [hadded] at hx
    rcases mem_addNames.1 hx with hold | hnew
    · exact hnames x hold
    · exact hnew

/-- After every day the rivers of a steady program are known, in the order of the text. -/
theorem names_after (h : Steady program) {config : Config}
    (hfirst : (Day.freeOutcome program config.rainfall 1 Registry.empty).fault = none) (n : Nat) :
    ((Simulation.fresh config).after program (n + 1)).rivers.names =
      addNames [] (riversOf program) := by
  have hstep : ∀ n, ((Simulation.fresh config).after program (n + 1)).rivers.names =
      addNames ((Simulation.fresh config).after program n).rivers.names (riversOf program) := by
    intro n
    obtain ⟨hfault, hnames⟩ := h.succeeds_after hfirst n
    exact (h.after_succ hfirst hfault hnames).2
  induction n with
  | zero => exact hstep 0
  | succ n ih =>
    rw [hstep, ih]
    exact addNames_of_subset fun x hx => mem_addNames.2 (.inr hx)

end Steady

/-- If the first day of a fresh simulation succeeds, then all days do. Every day shows the same
between its header and its summary, and ends with the same rivers in the same order, with the same
flows and dams; only levels may differ. -/
theorem days_repeat {program : Program} (h : Steady program) (config : Config)
    (hfirst : (Simulation.runDay config program 1 (Simulation.fresh config).rivers
      Sink.unlimited).fault = none) :
    ((Simulation.fresh config).run program Sink.unlimited).fault = none ∧
    ∀ n,
      let s := Simulation.fresh config
      let before := s.after program n
      let now := s.after program (n + 1)
      now.fault = none ∧
      now.sink.taken = before.sink.taken ++ (Simulation.header config (n + 1)).toUTF8 ++
        Simulation.shown config program (n + 1) before.rivers ++
          (Simulation.summary now.rivers (n + 1)).toUTF8 ∧
      Simulation.shown config program (n + 1) before.rivers =
        Simulation.shown config program 1 s.rivers ∧
      now.rivers.names = (s.after program 1).rivers.names ∧
      ∀ x, ((s.after program 1).rivers.state x).SameFlows (now.rivers.state x) := by
  have hfree : (Day.freeOutcome program config.rainfall 1 Registry.empty).fault = none := by
    rw [Sink.unlimited, Simulation.runDay_unlimited] at hfirst
    exact hfirst
  refine ⟨(h.succeeds_after hfree config.days).1, ?_⟩
  intro n s before now
  obtain ⟨hfault, hnames⟩ := h.succeeds_after hfree n
  obtain ⟨hday, hsink, hflows⟩ := h.same_outcome hfree hnames (n + 1)
  have hnow : now = _ := Simulation.after_succ hfault hday
  have hone : s.after program 1 = _ := Simulation.after_succ (n := 0) rfl hfree
  refine ⟨(h.succeeds_after hfree (n + 1)).1, ?_, congrArg Sink.taken hsink, ?_, ?_⟩
  · rw [hnow]
    rfl
  · rw [h.names_after hfree, h.names_after hfree 0]
  · rw [hone, hnow]
    exact hflows

/-- Three days of a program that passes water on, combines rivers and adjusts a dam by a variable in
a block: all of them succeed, the third shows what the first shows, and no rivers are new. -/
theorem days_repeat_three :
    let program : Program :=
      [.river "A" (some (.literal (.number 3.0) 1)) 1, .river "B" none 2, .flow "A" "B" 3,
        .combine "C" ["A", "B"] 4,
        .block [.var "share" (some (.binary .div (.name "B" 6) (.literal (.number 10.0) 6) 6)) 6,
          .dam "C" (.adjusted (.name "share" 7)) 7] 5,
        .output "C" 8]
    let config : Config := ⟨3, 2.0⟩
    let s := Simulation.fresh config
    (s.run program Sink.unlimited).fault = none ∧
      Simulation.shown config program 3 (s.after program 2).rivers =
        Simulation.shown config program 1 s.rivers ∧
      (s.after program 3).rivers.names = (s.after program 1).rivers.names := by
  intro program config s
  have hsteady : Steady program := ⟨by decide, by decide, by decide, by decide⟩
  obtain ⟨hrun, hdays⟩ := days_repeat hsteady config (by decide +kernel)
  obtain ⟨-, -, hshown, hnames, -⟩ := hdays 2
  exact ⟨hrun, hshown, hnames⟩

end Watershed
