import Watershed.Proofs.Output.Writes
import Watershed.Simulation

/-!
# What a run writes

A day of a run writes a header, what its statements show, and a summary; a run writes its days one
after the other. A run into any sink makes the writes of the run into a sink that never refuses,
until the sink refuses one.
-/

set_option autoImplicit false

namespace Watershed

namespace Simulation

/-! ## The writes of a run -/

/-- The writes of a day that starts with these rivers. -/
def dayWrites (config : Config) (program : Program) (day : Nat) (rivers : Registry) : List Write :=
  let d := Day.start rivers config.rainfall day Sink.unlimited
  ⟨.header day, header config day, rivers⟩ :: Statement.writesAll program d ++
    match Statement.execAll program d with
    | ⟨last, none⟩ => [⟨.summary day, summary last.rivers day, last.rivers⟩]
    | ⟨_, some _⟩ => []

/-- The writes of a number of days in a row, up to the first that fails. -/
def daysWrites (config : Config) (program : Program) :
    (count : Nat) → (day : Nat) → Registry → List Write
  | 0, _, _ => []
  | count + 1, day, rivers =>
    dayWrites config program day rivers ++
      match runDay config program day rivers Sink.unlimited with
      | ⟨next, _, none⟩ => daysWrites config program count (day + 1) next
      | ⟨_, _, some _⟩ => []

/-- The writes of a run. -/
def writes (s : Simulation) (program : Program) : List Write :=
  daysWrites s.config program s.config.days 1 s.rivers

/-! ## Runs into any sink -/

/-- Whether a run into a sink follows the run into a sink that never refuses, given the rivers and
the fault that the latter comes to and the result of the writes. -/
def Outcome.Follows (o : Outcome) (free : Registry × Option Fault) : Sink × Option Write → Prop
  | (k, none) => o = ⟨free.1, k, free.2⟩
  | (k, some w) => o = ⟨w.rivers, k, some (w.fault k.limit)⟩

/-- The rivers and the fault that a day comes to in a sink that never refuses. -/
def freeDay (config : Config) (program : Program) (day : Nat) (rivers : Registry) :
    Registry × Option Fault :=
  let o := Day.freeOutcome program config.rainfall day rivers
  (o.day.rivers, o.fault)

/-- The rivers and the fault that a number of days in a row come to in a sink that never refuses.
-/
def freeDays (config : Config) (program : Program) :
    (count : Nat) → (day : Nat) → Registry → Registry × Option Fault
  | 0, _, rivers => (rivers, none)
  | count + 1, day, rivers =>
    match freeDay config program day rivers with
    | (next, none) => freeDays config program count (day + 1) next
    | (next, some fault) => (next, some fault)

/-- A day into any sink follows the day into a sink that never refuses. -/
theorem follows_freeDay (config : Config) (program : Program) (day : Nat) (rivers : Registry)
    (k : Sink) :
    (runDay config program day rivers k).Follows (freeDay config program day rivers)
      (k.writeAll (dayWrites config program day rivers)) := by
  let d := Day.start rivers config.rainfall day Sink.unlimited
  unfold runDay freeDay Day.freeOutcome dayWrites
  rw [List.cons_append, Sink.writeAll]
  cases hheader : k.write (header config day) noLine with
  | mk k₁ fault =>
    rw [show k.write (header config day) (Write.Origin.header day).line = _ from hheader]
    cases fault with
    | some f =>
      exact congrArg (Outcome.mk rivers k₁) (congrArg some (Sink.fault_of_write hheader))
    | none =>
      have hbody : (Statement.execAll program (Day.start rivers config.rainfall day k₁)).Follows
          (Statement.execAll program d) (k₁.writeAll (Statement.writesAll program d)) :=
        follows_writes.2 program d k₁ rfl
      dsimp only
      rw [Sink.writeAll_append]
      cases hwrites : k₁.writeAll (Statement.writesAll program d) with
      | mk k₂ refused =>
        rw [hwrites] at hbody
        cases refused with
        | some w =>
          cases hexec : Statement.execAll program (Day.start rivers config.rainfall day k₁) with
          | mk stopped fault =>
            rw [hexec] at hbody
            obtain ⟨hrivers, hsink, rfl⟩ := hbody
            show (⟨stopped.rivers, stopped.sink, _⟩ : Outcome) = _
            rw [hrivers, hsink]
        | none =>
          rw [show Statement.execAll program (Day.start rivers config.rainfall day k₁) = _
            from hbody]
          cases hexec : Statement.execAll program d with
          | mk last fault =>
            cases fault with
            | some f => rfl
            | none =>
              dsimp only [Day.withSink]
              rw [Sink.writeAll]
              cases hsummary : k₂.write (summary last.rivers day) noLine with
              | mk k₃ fault =>
                rw [show k₂.write (summary last.rivers day) (Write.Origin.summary day).line = _
                  from hsummary]
                cases fault with
                | none => rfl
                | some f =>
                  exact congrArg (Outcome.mk last.rivers k₃)
                    (congrArg some (Sink.fault_of_write hsummary))

/-- What follows a run into a sink that never refuses is this run, if the writes go into such a
sink. -/
theorem follows_unlimited {o : Outcome} {free : Registry × Option Fault} {taken : ByteArray}
    {ws : List Write} (h : o.Follows free ((⟨taken, none⟩ : Sink).writeAll ws)) :
    o = ⟨free.1, ⟨taken ++ written ws, none⟩, free.2⟩ := by
  rw [Sink.writeAll_unlimited] at h
  exact h

/-- A day into a sink that never refuses makes all its writes. -/
theorem runDay_unlimited (config : Config) (program : Program) (day : Nat) (rivers : Registry)
    (taken : ByteArray) :
    runDay config program day rivers ⟨taken, none⟩ =
      ⟨(freeDay config program day rivers).1,
        ⟨taken ++ written (dayWrites config program day rivers), none⟩,
        (freeDay config program day rivers).2⟩ :=
  follows_unlimited (follows_freeDay config program day rivers ⟨taken, none⟩)

/-- What the statements of a program show on a day that begins with these rivers. -/
def shown (config : Config) (program : Program) (day : Nat) (rivers : Registry) : ByteArray :=
  (Day.freeOutcome program config.rainfall day rivers).day.sink.taken

/-- The writes of the statements of a day are what the program shows on it. -/
theorem written_writesAll (config : Config) (program : Program) (day : Nat) (rivers : Registry) :
    written (Statement.writesAll program (Day.start rivers config.rainfall day Sink.unlimited)) =
      shown config program day rivers := by
  let d := Day.start rivers config.rainfall day Sink.unlimited
  have hsink : (Day.freeOutcome program config.rainfall day rivers).day.sink =
      ⟨ByteArray.empty ++ written (Statement.writesAll program d), none⟩ :=
    Day.sink_of_follows rfl (follows_writes.2 program d Sink.unlimited rfl)
  rw [shown, hsink, ByteArray.empty_append]

/-- A day that succeeds writes its header, what its statements show, and its summary. -/
theorem runDay_of_fault_eq_none {config : Config} {program : Program} {day : Nat}
    {rivers : Registry} (taken : ByteArray)
    (h : (Day.freeOutcome program config.rainfall day rivers).fault = none) :
    let o := Day.freeOutcome program config.rainfall day rivers
    runDay config program day rivers ⟨taken, none⟩ =
      ⟨o.day.rivers,
        ⟨taken ++ (header config day).toUTF8 ++ shown config program day rivers ++
          (summary o.day.rivers day).toUTF8, none⟩, none⟩ := by
  intro o
  have hwrites : dayWrites config program day rivers =
      [⟨.header day, header config day, rivers⟩] ++
        Statement.writesAll program (Day.start rivers config.rainfall day Sink.unlimited) ++
          [⟨.summary day, summary o.day.rivers day, o.day.rivers⟩] := by
    unfold dayWrites
    cases hexec : Statement.execAll program
        (Day.start rivers config.rainfall day Sink.unlimited) with
    | mk last fault =>
      rw [Day.freeOutcome, hexec] at h
      obtain rfl : fault = none := h
      have ho : o = ⟨last, none⟩ := hexec
      simp only [hexec, ho]
      rfl
  rw [runDay_unlimited, hwrites, written_append, written_append, written_writesAll]
  simp only [written, ByteArray.append_empty, ByteArray.append_assoc]
  exact congrArg (Outcome.mk o.day.rivers _) h

/-- Days in a row make their writes one after the other, until the sink refuses one. -/
theorem follows_freeDays (config : Config) (program : Program) (count day : Nat)
    (rivers : Registry) (k : Sink) :
    (runDays config program count day rivers k).Follows (freeDays config program count day rivers)
      (k.writeAll (daysWrites config program count day rivers)) := by
  induction count generalizing day rivers k with
  | zero => rfl
  | succ count ih =>
    have hday := follows_freeDay config program day rivers k
    rw [runDays, freeDays, daysWrites, Sink.unlimited, runDay_unlimited, Sink.writeAll_append]
    cases hwrites : k.writeAll (dayWrites config program day rivers) with
    | mk k' refused =>
      rw [hwrites] at hday
      cases refused with
      | some w =>
        rw [show runDay config program day rivers k = _ from hday]
        rfl
      | none =>
        rw [show runDay config program day rivers k = _ from hday]
        cases freeDay config program day rivers with
        | mk next fault =>
          cases fault with
          | some f => rfl
          | none => exact ih (day + 1) next k'

/-- Days in a row into a sink that never refuses make all their writes. -/
theorem runDays_unlimited (config : Config) (program : Program) (count day : Nat)
    (rivers : Registry) (taken : ByteArray) :
    runDays config program count day rivers ⟨taken, none⟩ =
      ⟨(freeDays config program count day rivers).1,
        ⟨taken ++ written (daysWrites config program count day rivers), none⟩,
        (freeDays config program count day rivers).2⟩ :=
  follows_unlimited (follows_freeDays config program count day rivers ⟨taken, none⟩)

/-! ## One day after the other -/

/-- After a day without a fault the days go on with its rivers. -/
theorem freeDays_of_none {config : Config} {program : Program} {day : Nat}
    {rivers next : Registry} (count : Nat)
    (h : freeDay config program day rivers = (next, none)) :
    freeDays config program (count + 1) day rivers =
      freeDays config program count (day + 1) next := by
  rw [freeDays, h]

/-- The last of several days that succeed begins with the rivers and the sink of the days before
it. -/
theorem runDays_succ {config : Config} {program : Program} {count day : Nat} {rivers : Registry}
    {k : Sink} (h : (runDays config program count day rivers k).fault = none) :
    runDays config program (count + 1) day rivers k =
      runDay config program (day + count) (runDays config program count day rivers k).rivers
        (runDays config program count day rivers k).sink := by
  induction count generalizing day rivers k with
  | zero =>
    show runDays config program 1 day rivers k = runDay config program day rivers k
    rw [runDays]
    cases runDay config program day rivers k with
    | mk next k' fault => cases fault <;> rfl
  | succ count ih =>
    cases hday : runDay config program day rivers k with
    | mk next k' fault =>
      cases fault with
      | some f =>
        rw [runDays, hday] at h
        cases h
      | none =>
        have hmore : ∀ n, runDays config program (n + 1) day rivers k =
            runDays config program n (day + 1) next k' := by
          intro n
          rw [runDays, hday]
        rw [hmore] at h ⊢
        rw [hmore, ih h, Nat.add_right_comm, Nat.add_assoc]

/-- Days in a row without a fault are followed by the day after them. -/
theorem freeDays_succ {config : Config} {program : Program} {count day : Nat} {rivers : Registry}
    (h : (freeDays config program count day rivers).2 = none) :
    freeDays config program (count + 1) day rivers =
      freeDay config program (day + count) (freeDays config program count day rivers).1 := by
  have hrun := runDays_unlimited config program count day rivers ByteArray.empty
  have hsucc := runDays_succ (show (runDays config program count day rivers ⟨_, none⟩).fault = none
    by rw [hrun]; exact h)
  rw [hrun, runDays_unlimited, runDay_unlimited] at hsucc
  exact Prod.ext (congrArg Outcome.rivers hsucc) (congrArg Outcome.fault hsucc)

/-- Every write of days in a row is a write of one of them, and the days before it succeed. -/
theorem mem_daysWrites {config : Config} {program : Program} {count day : Nat} {rivers : Registry}
    {w : Write} (h : w ∈ daysWrites config program count day rivers) :
    ∃ n < count, (freeDays config program n day rivers).2 = none ∧
      w ∈ dayWrites config program (day + n) (freeDays config program n day rivers).1 := by
  induction count generalizing day rivers with
  | zero => cases h
  | succ count ih =>
    rw [daysWrites, Sink.unlimited, runDay_unlimited] at h
    rcases List.mem_append.1 h with hfirst | hmore
    · exact ⟨0, Nat.succ_pos _, rfl, hfirst⟩
    · cases hday : freeDay config program day rivers with
      | mk next fault =>
        rw [hday] at hmore
        cases fault with
        | some f => cases hmore
        | none =>
          obtain ⟨n, hn, hfree, hw⟩ := ih hmore
          refine ⟨n + 1, Nat.succ_lt_succ hn, ?_, ?_⟩
          · rw [freeDays_of_none n hday]
            exact hfree
          · rw [freeDays_of_none n hday, Nat.add_comm n 1, ← Nat.add_assoc]
            exact hw

/-- What a number of days of a run come to in a sink that never refuses. -/
def after (s : Simulation) (program : Program) (count : Nat) : Outcome :=
  runDays s.config program count 1 s.rivers Sink.unlimited

/-- The rivers after some days are those that the days come to in a sink that never refuses. -/
theorem rivers_after (s : Simulation) (program : Program) (count : Nat) :
    (s.after program count).rivers = (freeDays s.config program count 1 s.rivers).1 := by
  rw [after, Sink.unlimited, runDays_unlimited]

/-- The next day writes its header, what its statements show, and its summary, if it succeeds. -/
theorem after_succ {s : Simulation} {program : Program} {n : Nat}
    (h : (s.after program n).fault = none)
    (hday : (Day.freeOutcome program s.config.rainfall (n + 1)
      (s.after program n).rivers).fault = none) :
    let o := Day.freeOutcome program s.config.rainfall (n + 1) (s.after program n).rivers
    s.after program (n + 1) =
      ⟨o.day.rivers,
        ⟨(s.after program n).sink.taken ++ (header s.config (n + 1)).toUTF8 ++
          shown s.config program (n + 1) (s.after program n).rivers ++
            (summary o.day.rivers (n + 1)).toUTF8, none⟩, none⟩ := by
  intro o
  have hsink : (s.after program n).sink = ⟨(s.after program n).sink.taken, none⟩ := by
    rw [after, Sink.unlimited, runDays_unlimited]
  have hsucc : s.after program (n + 1) = runDay s.config program (1 + n)
      (s.after program n).rivers (s.after program n).sink := runDays_succ h
  rw [hsucc, hsink, Nat.add_comm 1 n]
  exact runDay_of_fault_eq_none _ hday

end Simulation

end Watershed
