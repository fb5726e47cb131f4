import Watershed.Proofs.Output.Runs

/-!
# Runs into a sink of limited capacity

Every write of a run has its place: it is a header, a summary, or shown by a `print` or `output`
statement of the program. A sink of limited capacity cuts the output at its capacity, and the run
stops at the write that crosses it.
-/

set_option autoImplicit false

namespace Watershed

/-- Every write of an execution is shown by one of its `print` and `output` statements. -/
theorem mem_writes :
    (∀ (s : Statement) (d : Day), ∀ w ∈ s.writes d,
      ∃ t ∈ s.simples, t.shows = true ∧ w.origin = .statement t) ∧
    ∀ (ss : List Statement) (d : Day), ∀ w ∈ Statement.writesAll ss d,
      ∃ t ∈ Statement.simplesAll ss, t.shows = true ∧ w.origin = .statement t := by
  apply Statement.induction_lists
  case simple =>
    intro s hblock d w hw
    refine ⟨s, by simp [Statement.simples_of_isBlock_eq_false hblock], ?_⟩
    cases s with
    | block => cases hblock
    | print e line =>
      rw [Statement.writes] at hw
      cases heval : d.eval e with
      | error fault =>
        rw [heval] at hw
        cases hw
      | ok value =>
        rw [heval] at hw
        obtain rfl := List.mem_singleton.1 hw
        exact ⟨rfl, rfl⟩
    | output name line =>
      rw [Statement.writes] at hw
      obtain rfl := List.mem_singleton.1 hw
      exact ⟨rfl, rfl⟩
    | _ => simp [Statement.writes] at hw
  case block =>
    intro body line ih d w hw
    rw [Statement.simples]
    rw [Statement.writes] at hw
    exact ih _ w hw
  case nil =>
    intro d w hw
    rw [Statement.writesAll] at hw
    cases hw
  case cons =>
    intro s ss ih ihs d w hw
    rw [Statement.simplesAll]
    rw [Statement.writesAll] at hw
    rcases List.mem_append.1 hw with hfirst | hmore
    · obtain ⟨t, ht, hshown⟩ := ih d w hfirst
      exact ⟨t, List.mem_append_left _ ht, hshown⟩
    · cases hexec : s.exec d with
      | mk next fault =>
        rw [hexec] at hmore
        cases fault with
        | some f => cases hmore
        | none =>
          obtain ⟨t, ht, hshown⟩ := ihs next w hmore
          exact ⟨t, List.mem_append_right _ ht, hshown⟩

namespace Simulation

/-- Whether a write has its place in a run. A header shows the rivers as the days before left them,
a summary shows them as its day left them, and everything else is shown by a `print` or `output`
statement of the program on one of the days. -/
def Places (s : Simulation) (program : Program) (w : Write) : Prop :=
  ∃ n < s.config.days,
    match w.origin with
    | .header day => day = n + 1 ∧ w.rivers = (s.after program n).rivers
    | .summary day => day = n + 1 ∧ w.rivers = (s.after program (n + 1)).rivers
    | .statement t =>
      t ∈ Statement.simplesAll program ∧ t.shows = true ∧
        w ∈ Statement.writesAll program
          (Day.start (s.after program n).rivers s.config.rainfall (n + 1) Sink.unlimited)

/-- Every write of a run has its place in it. -/
theorem places_of_mem_writes {s : Simulation} {program : Program} {w : Write}
    (h : w ∈ s.writes program) : s.Places program w := by
  obtain ⟨n, hn, hfree, hw⟩ := mem_daysWrites h
  refine ⟨n, hn, ?_⟩
  rw [← rivers_after, Nat.add_comm 1 n] at hw
  rcases List.mem_append.1 hw with hw | hsummary
  · rcases List.mem_cons.1 hw with rfl | hw
    · exact ⟨rfl, rfl⟩
    · obtain ⟨t, ht, hshows, horigin⟩ := mem_writes.2 program _ w hw
      rw [horigin]
      exact ⟨ht, hshows, hw⟩
  · have hlast : (s.after program (n + 1)).rivers =
        (freeDay s.config program (n + 1) (s.after program n).rivers).1 := by
      rw [rivers_after, rivers_after, freeDays_succ hfree, Nat.add_comm 1 n]
    unfold freeDay Day.freeOutcome at hlast
    cases hexec : Statement.execAll program
        (Day.start (s.after program n).rivers s.config.rainfall (n + 1) Sink.unlimited) with
    | mk last fault =>
      rw [hexec] at hsummary hlast
      cases fault with
      | some f => cases hsummary
      | none =>
        obtain rfl := List.mem_singleton.1 hsummary
        exact ⟨rfl, hlast.symm⟩

end Simulation

/-- A run into a sink of limited capacity. If everything that the run writes into a sink that never
refuses fits, it comes to the same; otherwise it takes the bytes up to the capacity and stops at
the write that crosses it, with the rivers of that moment and a fault on the line of the statement
it belongs to, or on no line for a header or a summary. -/
theorem run_limited (s : Simulation) (program : Program) (limit : Sink.Limit) :
    (s.run program Sink.unlimited).sink.taken = written (s.writes program) ∧
    ((s.run program Sink.unlimited).sink.taken.size ≤ limit.capacity →
      s.run program (Sink.limited limit) =
        ⟨(s.run program Sink.unlimited).rivers,
          ⟨(s.run program Sink.unlimited).sink.taken, some limit⟩,
          (s.run program Sink.unlimited).fault⟩) ∧
    (limit.capacity < (s.run program Sink.unlimited).sink.taken.size →
      ∃ before w after, s.writes program = before ++ w :: after ∧ s.Places program w ∧
        (written before).size ≤ limit.capacity ∧
        limit.capacity < (written (before ++ [w])).size ∧
        s.run program (Sink.limited limit) =
          ⟨w.rivers,
            ⟨(s.run program Sink.unlimited).sink.taken.extract 0 limit.capacity, some limit⟩,
            some (.refusedOutput limit.refusal w.origin.line)⟩) := by
  have hfree := Simulation.runDays_unlimited s.config program s.config.days 1 s.rivers
    ByteArray.empty
  have hlimited := Simulation.follows_freeDays s.config program s.config.days 1 s.rivers
    (Sink.limited limit)
  have htaken : (s.run program Sink.unlimited).sink.taken = written (s.writes program) := by
    rw [show s.run program Sink.unlimited = _ from hfree, ByteArray.empty_append]
    rfl
  obtain ⟨hroom, hfull⟩ := Sink.writeAll_limited (s.writes program)
    (show ByteArray.empty.size ≤ limit.capacity from Nat.zero_le _)
  rw [ByteArray.empty_append, ← htaken] at hroom hfull
  refine ⟨htaken, fun hsize => ?_, fun hsize => ?_⟩
  · rw [show (Sink.limited limit).writeAll (Simulation.daysWrites s.config program s.config.days 1
      s.rivers) = _ from hroom hsize] at hlimited
    rw [show s.run program (Sink.limited limit) = _ from hlimited]
    rw [show s.run program Sink.unlimited = _ from hfree]
  · obtain ⟨before, w, after, hws, hbefore, hcross, hwrite⟩ := hfull hsize
    rw [show (Sink.limited limit).writeAll (Simulation.daysWrites s.config program s.config.days 1
      s.rivers) = _ from hwrite] at hlimited
    have hmem : w ∈ s.writes program := by
      rw [hws]
      simp
    rw [ByteArray.empty_append] at hbefore hcross
    exact ⟨before, w, after, hws, Simulation.places_of_mem_writes hmem, hbefore, hcross, hlimited⟩

end Watershed