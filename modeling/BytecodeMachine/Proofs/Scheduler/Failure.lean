/-
This file says what a round leaves behind that is broken off by a fault. The
table is as the turns left it: the threads before the one that failed have had
their turns, those behind it have not, and nobody is dropped.

There are two main statements. The thread that failed stays in the table with
its cursor behind the beginning of the instruction that failed; so it goes on
there in the next round if it gets its turn, unless no code is left. And the
threads that ended before the fault stay in the table without a frame, until a
round without a fault.
-/

import Mathlib.Data.List.Nodup
import BytecodeMachine.Proofs.Scheduler.Deadlock
import BytecodeMachine.Proofs.Scheduler.Past
import BytecodeMachine.Proofs.Thread.Failure

namespace BytecodeMachine.Scheduler

/-! ### Rounds that are broken off -/

/-- How a round was broken off: the turns of some threads succeeded, the one of the next thread
failed, and those behind it got none. All of them are still in the table. -/
structure Breakdown (scheduler : Scheduler) (fault : Fault) (after : Scheduler) where
  earlier : List Thread
  thread : Thread
  later : List Thread
  threads_eq : scheduler.threads = earlier ++ thread :: later
  report : Round
  reached : List Thread
  found : Heap
  earlier_eq : attemptRoundOf scheduler.quantum earlier scheduler.heap =
    (.ok report, (reached, found))
  stopped : Thread
  thread_eq : (Thread.turn scheduler.quantum).attempt (thread, found) =
    (.error fault, (stopped, after.heap))
  after_eq : after.threads = reached ++ stopped :: later

theorem exists_split_of_attemptRoundOf_error {quantum : Nat} {threads left : List Thread}
    {heap last : Heap} {fault : Fault}
    (failed : attemptRoundOf quantum threads heap = (.error fault, (left, last))) :
    ∃ earlier thread later report reached found stopped,
      threads = earlier ++ thread :: later ∧
      attemptRoundOf quantum earlier heap = (.ok report, (reached, found)) ∧
      (Thread.turn quantum).attempt (thread, found) = (.error fault, (stopped, last)) ∧
      left = reached ++ stopped :: later := by
  induction threads generalizing heap left with
  | nil => cases failed
  | cons thread others inductionHypothesis =>
    rw [attemptRoundOf_cons] at failed
    rcases turned : (Thread.turn quantum).attempt (thread, heap) with
      ⟨_ | turn, stopped, after⟩ <;> simp only [turned] at failed
    · cases failed
      exact ⟨[], thread, others, _, [], heap, stopped, rfl, rfl, turned, rfl⟩
    · rcases rested : attemptRoundOf quantum others after with ⟨_ | report, rest, final⟩ <;>
        rw [rested] at failed <;> cases failed
      obtain ⟨earlier, next, later, report, reached, found, stopped', rfl, success, broke, rfl⟩ :=
        inductionHypothesis rested
      refine ⟨thread :: earlier, next, later, Round.after stopped.id turn report,
        stopped :: reached, found, stopped', rfl, ?_, broke, rfl⟩
      rw [attemptRoundOf_cons, turned]
      simp only [success]
      rfl

theorem exists_breakdown {scheduler after : Scheduler} {fault : Fault}
    (failed : round.attempt scheduler = (.error fault, after)) :
    Nonempty (Breakdown scheduler fault after) := by
  rw [attempt_round] at failed
  rcases turns : attemptRoundOf scheduler.quantum scheduler.threads scheduler.heap with
    ⟨_ | report, left, last⟩ <;> rw [turns] at failed <;> cases failed
  obtain ⟨earlier, thread, later, report, reached, found, stopped, split, success, broke, rfl⟩ :=
    exists_split_of_attemptRoundOf_error turns
  exact ⟨⟨earlier, thread, later, split, report, reached, found, success, stopped, broke, rfl⟩⟩

/-- The thread that failed has kept its frame and its name. -/
theorem Breakdown.exists_frame {scheduler after : Scheduler} {fault : Fault}
    (breakdown : Breakdown scheduler fault after) (wellFormed : scheduler.WellFormed) :
    ∃ frame, breakdown.stopped = ⟨breakdown.thread.id, [frame]⟩ ∧ frame.StoppedInside := by
  refine Thread.exists_frame_of_turn_error (wellFormed.thread_wellFormed _ ?_)
    breakdown.thread_eq
  rw [breakdown.threads_eq]
  exact List.mem_append_right _ List.mem_cons_self

/-- A run that fails, but not with a deadlock, fails with one of its rounds. -/
theorem exists_round_of_run_error {limit : Nat} {scheduler after : Scheduler} {fault : Fault}
    (failed : (run limit).attempt scheduler = (.error fault, after))
    (noDeadlock : ∀ blocked, fault ≠ .deadlock blocked) :
    ∃ count, round.attempt (scheduler.afterRounds count) = (.error fault, after) := by
  induction limit generalizing scheduler with
  | zero =>
    rw [run_zero, Action.attempt_bind_of_ok _ (Action.attempt_get _)] at failed
    cases failed
  | succ limit inductionHypothesis =>
    by_cases inhabited : scheduler.threads = []
    · cases (attempt_run_of_empty inhabited _).symm.trans failed
    · rw [attempt_run_succ inhabited] at failed
      rcases outcome : round.attempt scheduler with ⟨_ | report, reached⟩ <;>
        simp only [outcome] at failed
      · cases failed
        exact ⟨0, outcome⟩
      · split at failed
        · rw [Prod.mk.injEq] at failed
          obtain ⟨count, broken⟩ := @inductionHypothesis reached
            (Prod.ext (Except.error_of_map_eq_error failed.1) failed.2)
          refine ⟨count + 1, ?_⟩
          rw [afterRounds_succ, outcome]
          exact broken
        · cases failed
          exact absurd rfl (noDeadlock _)

/-! ### The thread that failed -/

/-- The next round comes to the thread of a name, and in its turn that completes an instruction. -/
def Advances (scheduler : Scheduler) (id : ThreadId) : Prop :=
  ∃ earlier thread later report reached found,
    scheduler.threads = earlier ++ thread :: later ∧ thread.id = id ∧
    attemptRoundOf scheduler.quantum earlier scheduler.heap = (.ok report, (reached, found)) ∧
    thread.CompletesOn found

/-- A name is that of one place of the table only. -/
theorem split_unique {scheduler : Scheduler} (distinct : scheduler.ids.Nodup)
    {earlier later earlier' later' : List Thread} {thread thread' : Thread}
    (one : scheduler.threads = earlier ++ thread :: later)
    (other : scheduler.threads = earlier' ++ thread' :: later') (same : thread.id = thread'.id) :
    earlier = earlier' ∧ thread = thread' ∧ later = later' := by
  rw [ids, one, List.map_append, List.map_cons, List.nodup_middle, List.nodup_cons,
    List.mem_append, not_or, same] at distinct
  rw [one] at other
  exact (List.append_cons_inj_of_notMem
    (fun member => distinct.1.1 (List.mem_map_of_mem member))
    fun member => distinct.1.2 (List.mem_map_of_mem member)).mp other

/-- Threads of a name whose frames have no code left stay so. -/
theorem keeps_spent_round (id : ThreadId) :
    round.Keeps fun scheduler => ∀ thread ∈ scheduler.threads, thread.id = id → thread.Spent := by
  intro scheduler spent thread member
  have kept : (Thread.turn scheduler.quantum).Keeps fun state =>
      state.1.id = id → state.1.Spent :=
    fun state spent named => Thread.keeps_turn_spent _ state (spent named)
  exact keeps_roundOf kept scheduler.threads scheduler.heap spent thread
    (mem_threads_round member)

section Breakdown

variable {scheduler after : Scheduler} {fault : Fault}
  (breakdown : Breakdown scheduler fault after)

include breakdown

theorem Breakdown.advances_iff (distinct : after.ids.Nodup) :
    after.Advances breakdown.stopped.id ↔
      ∃ report again found,
        attemptRoundOf after.quantum breakdown.reached after.heap =
          (.ok report, (again, found)) ∧ breakdown.stopped.CompletesOn found := by
  constructor
  · rintro ⟨earlier, thread, later, report, again, found, split, named, success, completes⟩
    obtain ⟨rfl, rfl, -⟩ := split_unique distinct split breakdown.after_eq named
    exact ⟨report, again, found, success, completes⟩
  · rintro ⟨report, again, found, success, completes⟩
    exact ⟨_, _, _, report, again, found, breakdown.after_eq, rfl, success, completes⟩

/-- Without code left the thread never completes another instruction. -/
theorem Breakdown.not_advances (distinct : after.ids.Nodup) (spent : breakdown.stopped.Spent)
    (count : Nat) : ¬ (after.afterRounds count).Advances breakdown.stopped.id := by
  have here : breakdown.stopped ∈ after.threads := by
    rw [breakdown.after_eq]
    exact List.mem_append_right _ List.mem_cons_self
  have holds : ∀ thread ∈ after.threads, thread.id = breakdown.stopped.id → thread.Spent :=
    fun thread member named =>
      List.inj_on_of_nodup_map distinct member here named ▸ spent
  rintro ⟨earlier, thread, later, report, again, found, split, named, -, completes⟩
  have still := keeps_afterRounds (keeps_spent_round breakdown.stopped.id) holds count
  refine (still thread ?_ named).not_completesOn found completes
  rw [split]
  exact List.mem_append_right _ List.mem_cons_self

end Breakdown

/-- A round that fails is broken off, and so is the last round of a run that fails, but not with a
deadlock. The thread that failed is kept with its frame, whose cursor has been stopped behind the
beginning of an instruction. In the next round the thread completes another instruction if and
only if the turns of those before it succeed and a step of its frame lets the next instruction
follow; and if the frame has no code left, the thread never completes another instruction in any
round. -/
theorem failed_thread_goes_on {scheduler after : Scheduler} {fault : Fault}
    (reachable : scheduler.Reachable)
    (failed : round.attempt scheduler = (.error fault, after) ∨
      ∃ limit, (run limit).attempt scheduler = (.error fault, after))
    (noDeadlock : ∀ blocked, fault ≠ .deadlock blocked) :
    ∃ (count : Nat) (breakdown : Breakdown (scheduler.afterRounds count) fault after)
        (frame : Frame),
      breakdown.stopped = ⟨breakdown.thread.id, [frame]⟩ ∧
      frame.pc < frame.cursor.position ∧ frame.cursor.position ≤ frame.cursor.code.size ∧
      (after.Advances breakdown.thread.id ↔
        ∃ report again found next,
          attemptRoundOf after.quantum breakdown.reached after.heap =
            (.ok report, (again, found)) ∧
          Frame.step.attempt (frame, found) = (.ok .proceed, next)) ∧
      (frame.isExhausted →
        ∀ more, ¬ (after.afterRounds more).Advances breakdown.thread.id) := by
  obtain ⟨count, broken⟩ :
      ∃ count, round.attempt (scheduler.afterRounds count) = (.error fault, after) := by
    obtain broken | ⟨limit, failed⟩ := failed
    · exact ⟨0, broken⟩
    · exact exists_round_of_run_error failed noDeadlock
  have known : (scheduler.afterRounds count).Reachable :=
    keeps_afterRounds (fun _ before => before.round) reachable count
  obtain ⟨breakdown⟩ := exists_breakdown broken
  obtain ⟨frame, stopped, begun, notPast⟩ := breakdown.exists_frame known.wellFormed
  have distinct : after.ids.Nodup := ids_of_round_error broken ▸ known.nodup_ids
  have onward := breakdown.advances_iff distinct
  have never := breakdown.not_advances distinct
  rw [stopped] at onward never
  refine ⟨count, breakdown, frame, stopped, begun, notPast, ?_, fun ended => never ?_⟩
  · simp only [onward, Thread.completesOn_single_iff, exists_and_left]
  · exact List.forall_mem_singleton.mpr ended

/-- A scheduler with a thread for each of some methods without arguments. -/
def launch (methods : List Method) : Scheduler :=
  methods.foldl (fun scheduler method => ((spawn method []).attempt scheduler).2) (create {})

theorem reachable_launch (methods : List Method) : (launch methods).Reachable :=
  List.foldlRecOn methods _ (Reachable.create {}) fun _ before method _ => before.spawn method []

/-- A breakpoint, which always fails, and another instruction behind it. -/
def breakpointFirst : Method :=
  ⟨#[0xca, 0x00], 0, 0⟩

/-- A breakpoint with nothing behind it. -/
def breakpointOnly : Method :=
  ⟨#[0xca], 0, 0⟩

/-- The thread that has failed, and there is no other, completes the next instruction. -/
theorem failed_thread_advances :
    let scheduler := launch [breakpointFirst]
    let after := (round.attempt scheduler).2
    scheduler.Reachable ∧ scheduler.ids = [⟨0⟩] ∧
    (round.attempt scheduler).1 = .error (.reservedInstruction .breakpoint 0) ∧
    after.Advances ⟨0⟩ ∧ (round.attempt after).1 = .ok ⟨1, [⟨0⟩], []⟩ := by
  refine ⟨reachable_launch _, rfl, rfl, ?_, rfl⟩
  exact ⟨[], ⟨⟨0⟩, [⟨⟨0⟩, 0, ⟨#[0xca, 0x00], 1⟩, .blank 0, .empty 0⟩]⟩, [], ⟨0, [], []⟩, [], _,
    rfl, rfl, rfl, _, _, rfl, rfl⟩

theorem Breakdown.of_single {scheduler after : Scheduler} {fault : Fault} {thread : Thread}
    (breakdown : Breakdown scheduler fault after) (single : after.threads = [thread]) :
    breakdown.reached = [] ∧ breakdown.stopped = thread := by
  obtain ⟨none, alone⟩ | ⟨-, none⟩ :=
    List.append_eq_singleton_iff.mp (breakdown.after_eq.symm.trans single)
  · exact ⟨none, (List.cons_eq_cons.mp alone).1⟩
  · cases none

/-- One thread goes on behind its breakpoint, and the other, which has no code left there, never
does. -/
theorem failed_thread_goes_on_breakpoints :
    (∃ fault after, round.attempt (launch [breakpointFirst]) = (.error fault, after) ∧
      ∃ count, ∃ breakdown : Breakdown ((launch [breakpointFirst]).afterRounds count) fault after,
        after.Advances breakdown.thread.id) ∧
    ∃ fault after, (run 1).attempt (launch [breakpointOnly]) = (.error fault, after) ∧
      ∃ count, ∃ breakdown : Breakdown ((launch [breakpointOnly]).afterRounds count) fault after,
        ∀ more, ¬ (after.afterRounds more).Advances breakdown.thread.id := by
  constructor
  · obtain ⟨count, breakdown, frame, stopped, -, -, onward, -⟩ :=
      failed_thread_goes_on (reachable_launch [breakpointFirst]) (Or.inl rfl) nofun
    obtain ⟨none, same⟩ := breakdown.of_single rfl
    cases (Thread.mk.inj (stopped.symm.trans same)).2
    rw [none] at onward
    exact ⟨_, _, rfl, count, breakdown, onward.mpr ⟨_, _, _, _, rfl, rfl⟩⟩
  · obtain ⟨count, breakdown, frame, stopped, -, -, -, never⟩ :=
      failed_thread_goes_on (reachable_launch [breakpointOnly]) (Or.inr ⟨1, rfl⟩) nofun
    obtain ⟨-, same⟩ := breakdown.of_single rfl
    cases (Thread.mk.inj (stopped.symm.trans same)).2
    exact ⟨_, _, rfl, count, breakdown, never rfl⟩

/-! ### The threads that have ended -/

/-- After a round that is broken off the threads without frames are those that its turns have
ended and those that had none before and got no turn. -/
theorem Breakdown.finished_eq {scheduler after : Scheduler} {fault : Fault}
    (breakdown : Breakdown scheduler fault after) (wellFormed : scheduler.WellFormed) :
    after.threads.filter Thread.isTerminated =
      breakdown.reached.filter Thread.isTerminated ++
        breakdown.later.filter Thread.isTerminated := by
  obtain ⟨frame, stopped, -⟩ := breakdown.exists_frame wellFormed
  rw [breakdown.after_eq, List.filter_append, stopped, List.filter_cons_of_neg Bool.false_ne_true]

/-- A round that succeeds drops the threads without frames and reports them. A round that is
broken off drops none: those that its turns have ended stay in the table, as do those without
frames that got no turn, and all of them are counted. -/
theorem finished_threads_left {scheduler after : Scheduler} (reachable : scheduler.Reachable) :
    (∀ report, round.attempt scheduler = (.ok report, after) →
      (∀ thread ∈ after.threads, thread.isTerminated = false) ∧
        after.liveThreads + report.terminated.length = scheduler.liveThreads) ∧
    ∀ fault, round.attempt scheduler = (.error fault, after) →
      ∃ breakdown : Breakdown scheduler fault after,
        after.liveThreads = scheduler.liveThreads ∧
        (after.threads.filter Thread.isTerminated).map Thread.id =
          breakdown.report.terminated ++
            (breakdown.later.filter Thread.isTerminated).map Thread.id ∧
        ((∀ thread ∈ after.threads, thread.isTerminated = false) ↔
          breakdown.report.terminated = [] ∧
            ∀ thread ∈ breakdown.later, thread.isTerminated = false) := by
  refine ⟨fun report success => ⟨fun thread member => ?_, ?_⟩, fun fault failed => ?_⟩
  · obtain ⟨threads, heap, -, rfl⟩ := round_eq_ok success
    simpa using (List.mem_filter.mp member).2
  · have kept := (perm_ids_of_round success).length_eq
    simp only [ids, List.length_append, List.length_map] at kept
    rw [liveThreads, liveThreads, Nat.add_comm, kept]
  · obtain ⟨breakdown⟩ := exists_breakdown failed
    have finished := breakdown.finished_eq reachable.wellFormed
    have ended := terminated_of_attemptRoundOf breakdown.earlier_eq
    refine ⟨breakdown, ?_, ?_, ?_⟩
    · have names := congrArg List.length (ids_of_round_error failed)
      simpa [ids, liveThreads] using names
    · rw [finished, List.map_append, ended]
    · have none : (∀ thread ∈ after.threads, thread.isTerminated = false) ↔
          after.threads.filter Thread.isTerminated = [] := by simp
      rw [none, finished, ended, List.append_eq_nil_iff, List.map_eq_nil_iff]
      simp

/-- The first thread has ended and is still there; only the other one has not. -/
theorem finished_thread_stays :
    let scheduler := launch [⟨#[0x00], 0, 0⟩, breakpointOnly]
    let after := (round.attempt scheduler).2
    scheduler.Reachable ∧
    (round.attempt scheduler).1 = .error (.reservedInstruction .breakpoint 0) ∧
    (∃ thread ∈ after.threads, thread.isTerminated) ∧
    after.liveThreads = 2 ∧ (after.threads.filter (!·.isTerminated)).length = 1 := by
  refine ⟨reachable_launch _, rfl, ⟨⟨⟨0⟩, []⟩, ?_, rfl⟩, rfl, rfl⟩
  exact List.mem_cons_self

theorem finished_threads_left_breakpoint :
    ∃ fault after, round.attempt (launch [⟨#[0x00], 0, 0⟩, breakpointOnly]) =
      (.error fault, after) ∧
      ∃ breakdown : Breakdown (launch [⟨#[0x00], 0, 0⟩, breakpointOnly]) fault after,
        after.liveThreads = 2 ∧
        breakdown.report.terminated ++
          (breakdown.later.filter Thread.isTerminated).map Thread.id = [⟨0⟩] := by
  have reachable := reachable_launch [⟨#[0x00], 0, 0⟩, breakpointOnly]
  obtain ⟨breakdown, count, finished, -⟩ := (finished_threads_left reachable).2 _ rfl
  exact ⟨_, _, rfl, breakdown, count, finished.symm⟩

end BytecodeMachine.Scheduler
