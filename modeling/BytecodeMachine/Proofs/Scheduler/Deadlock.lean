/-
This file shows that a deadlock is detected exactly and stays. Main statement:
a round of a reachable scheduler makes no progress if and only if every thread
in the table is stuck, and then no round after it makes any.

One direction runs the round on stuck threads: each turn leaves the heap as it
is, so the threads behind it are still stuck. The other goes through a round
without progress: the first thread must be stuck, so its turn left the heap as
it was, and the argument goes on with the threads behind it.
-/

import BytecodeMachine.Proofs.Scheduler.Reachable

namespace BytecodeMachine

/-! ### Everything but the offsets that the frames remember -/

/-- The frame without the offset that it remembers. -/
def Frame.withoutPc (frame : Frame) : Frame :=
  { frame with pc := 0 }

namespace Thread

def withoutPc (thread : Thread) : Thread :=
  { thread with frames := thread.frames.map Frame.withoutPc }

theorem withoutPc_rewound (thread : Thread) : thread.rewound.withoutPc = thread.withoutPc := by
  unfold withoutPc rewound
  simp only [List.map_map]
  rfl

/-- A stuck thread stays stuck when its frames remember other offsets. -/
theorem StuckAgainst.rewound {thread : Thread} {heap : Heap} (stuck : thread.StuckAgainst heap) :
    thread.rewound.StuckAgainst heap := by
  obtain ⟨frame, reference, owner, current, entering, locked, other⟩ := stuck
  refine ⟨frame.rewound, reference, owner, ?_, entering, locked, other⟩
  show (thread.frames.map Frame.rewound).head? = some frame.rewound
  rw [List.head?_map, show thread.frames.head? = some frame from current]
  rfl

theorem StuckAgainst.isTerminated_eq_false {thread : Thread} {heap : Heap}
    (stuck : thread.StuckAgainst heap) : thread.isTerminated = false := by
  obtain ⟨frame, -, -, current, -⟩ := stuck
  unfold current? at current
  unfold isTerminated
  cases frames : thread.frames with
  | nil => simp [frames] at current
  | cons first below => rfl

end Thread

namespace Scheduler

def withoutPc (scheduler : Scheduler) : Scheduler :=
  { scheduler with threads := scheduler.threads.map Thread.withoutPc }

/-- The scheduler whose frames remember the offsets of their next instructions. -/
def rewound (scheduler : Scheduler) : Scheduler :=
  { scheduler with threads := scheduler.threads.map Thread.rewound }

theorem withoutPc_rewound (scheduler : Scheduler) :
    scheduler.rewound.withoutPc = scheduler.withoutPc := by
  have same : Thread.withoutPc ∘ Thread.rewound = Thread.withoutPc := by
    funext thread
    exact Thread.withoutPc_rewound thread
  unfold withoutPc rewound
  simp only [List.map_map, same]

/-! ### Rounds without progress -/

/-- Every thread in the table is stuck. -/
def Stalled (scheduler : Scheduler) : Prop :=
  ∀ thread ∈ scheduler.threads, thread.StuckAgainst scheduler.heap

theorem Stalled.rewound {scheduler : Scheduler} (stalled : scheduler.Stalled) :
    scheduler.rewound.Stalled := by
  intro thread member
  obtain ⟨former, present, rfl⟩ := List.mem_map.mp member
  exact (stalled former present).rewound

theorem madeProgress_eq_false_iff (report : Round) :
    report.madeProgress = false ↔ report.executed = 0 ∧ report.terminated = [] := by
  simp [Round.madeProgress]

/-- The turns of stuck threads leave the heap as it is. -/
theorem attemptRoundOf_of_stuck {threads : List Thread} {heap : Heap} (quantum : Nat)
    (wellFormed : ∀ thread ∈ threads, thread.WellFormed)
    (stuck : ∀ thread ∈ threads, thread.StuckAgainst heap) :
    attemptRoundOf (quantum + 1) threads heap =
      (.ok ⟨0, [], threads.map Thread.id⟩, (threads.map Thread.rewound, heap)) := by
  induction threads with
  | nil => rfl
  | cons thread later inductionHypothesis =>
    rw [List.forall_mem_cons] at wellFormed stuck
    rw [attemptRoundOf_cons, Thread.attempt_turn_of_stuckAgainst wellFormed.1 stuck.1]
    simp only [inductionHypothesis wellFormed.2 stuck.2]
    rfl

/-- Turns that bring no thread forward are turns of stuck threads. -/
theorem stuck_of_idle_round {quantum : Nat} {threads later : List Thread} {heap last : Heap}
    {report : Round} (wellFormed : ∀ thread ∈ threads, thread.WellFormed)
    (success : attemptRoundOf (quantum + 1) threads heap = (.ok report, (later, last)))
    (idle : report.executed = 0) (none : report.terminated = []) :
    ∀ thread ∈ threads, thread.StuckAgainst heap := by
  induction threads generalizing later report with
  | nil => exact nofun
  | cons thread behind inductionHypothesis =>
    rw [List.forall_mem_cons] at wellFormed
    obtain ⟨turn, reached, after, others, rest, turned, rested, rfl, -⟩ :=
      attemptRoundOf_cons_eq_ok success
    have bothIdle : turn.executed = 0 ∧ others.executed = 0 := Nat.add_eq_zero_iff.mp idle
    have alive : turn.state ≠ .terminated := by
      intro ended
      simp [Round.after, ended] at none
    have noneBehind : others.terminated = [] := by
      simpa [Round.after, alive] using none
    have stuck := Thread.stuckAgainst_of_idle wellFormed.1 turned bothIdle.1 alive
    -- its turn left the heap alone, so the others were idle on the same heap
    rw [Thread.attempt_turn_of_stuckAgainst wellFormed.1 stuck] at turned
    cases turned
    exact List.forall_mem_cons.mpr
      ⟨stuck, inductionHypothesis wellFormed.2 rested bothIdle.2 noneBehind⟩

theorem attempt_round_of_stalled {scheduler : Scheduler} (wellFormed : scheduler.WellFormed)
    (stalled : scheduler.Stalled) :
    round.attempt scheduler =
      (.ok ⟨0, [], scheduler.threads.map Thread.id⟩, scheduler.rewound) := by
  obtain ⟨quantum, enough⟩ := Nat.exists_eq_add_one.mpr wellFormed.quantum_pos
  have allRemain : (scheduler.threads.map Thread.rewound).filter (!·.isTerminated) =
      scheduler.threads.map Thread.rewound := by
    refine List.filter_eq_self.mpr fun thread member => ?_
    rw [(stalled.rewound thread member).isTerminated_eq_false]
    rfl
  rw [attempt_round, enough,
    attemptRoundOf_of_stuck quantum wellFormed.thread_wellFormed stalled]
  simp only [allRemain]
  rw [← enough]
  rfl

theorem stalled_of_idle_round {scheduler later : Scheduler} {report : Round}
    (wellFormed : scheduler.WellFormed)
    (success : round.attempt scheduler = (.ok report, later))
    (idle : report.madeProgress = false) : scheduler.Stalled := by
  obtain ⟨quantum, enough⟩ := Nat.exists_eq_add_one.mpr wellFormed.quantum_pos
  obtain ⟨nothing, none⟩ := (madeProgress_eq_false_iff report).mp idle
  obtain ⟨threads, heap, turns, -⟩ := round_eq_ok success
  rw [enough] at turns
  exact stuck_of_idle_round wellFormed.thread_wellFormed turns nothing none

/-! ### Deadlock -/

/-- The scheduler after a number of rounds. -/
def afterRounds (scheduler : Scheduler) : Nat → Scheduler
  | 0 => scheduler
  | count + 1 => (round.attempt (afterRounds scheduler count)).2

/-- The rounds after the first are those of the scheduler that the first one leaves. -/
theorem afterRounds_succ (scheduler : Scheduler) (count : Nat) :
    scheduler.afterRounds (count + 1) = (round.attempt scheduler).2.afterRounds count := by
  induction count with
  | zero => rfl
  | succ count inductionHypothesis =>
    rw [afterRounds, inductionHypothesis]
    rfl

/-- What a round keeps is kept by any number of rounds. -/
theorem keeps_afterRounds {property : Scheduler → Prop} (kept : round.Keeps property)
    {scheduler : Scheduler} (holds : property scheduler) (count : Nat) :
    property (scheduler.afterRounds count) := by
  induction count with
  | zero => exact holds
  | succ count inductionHypothesis => exact kept _ inductionHypothesis

/-- Stuck threads stay stuck through any number of rounds. -/
theorem afterRounds_of_stalled {scheduler : Scheduler} (wellFormed : scheduler.WellFormed)
    (stalled : scheduler.Stalled) (count : Nat) :
    (afterRounds scheduler count).WellFormed ∧ (afterRounds scheduler count).Stalled ∧
      (afterRounds scheduler count).withoutPc = scheduler.withoutPc := by
  induction count with
  | zero => exact ⟨wellFormed, stalled, rfl⟩
  | succ count inductionHypothesis =>
    obtain ⟨inOrder, stuck, same⟩ := inductionHypothesis
    have kept := keeps_round _ inOrder
    unfold afterRounds
    rw [attempt_round_of_stalled inOrder stuck] at kept ⊢
    exact ⟨kept, stuck.rewound, (withoutPc_rewound _).trans same⟩

/-- A round makes no progress exactly when every thread in the table is stuck. Then no round
after it makes progress or changes more than the offsets that frames remember, and a run ends
at once as a deadlock of all threads in the table. -/
theorem idle_round_iff_stalled {scheduler : Scheduler} (reachable : scheduler.Reachable)
    (inhabited : scheduler.threads ≠ []) :
    ((∃ report later, round.attempt scheduler = (.ok report, later) ∧
        report.madeProgress = false) ↔
      ∀ thread ∈ scheduler.threads, thread.StuckAgainst scheduler.heap) ∧
    ((∀ thread ∈ scheduler.threads, thread.StuckAgainst scheduler.heap) →
      (∀ count, ∃ report,
        round.attempt (afterRounds scheduler count) =
          (.ok report, afterRounds scheduler (count + 1)) ∧
        report.madeProgress = false ∧
        (afterRounds scheduler (count + 1)).withoutPc = scheduler.withoutPc) ∧
      ∀ limit, ∃ later,
        (run (limit + 1)).attempt scheduler =
          (.error (.deadlock (scheduler.threads.map Thread.id)), later) ∧
        later.withoutPc = scheduler.withoutPc) := by
  have wellFormed := reachable.wellFormed
  refine ⟨⟨?_, fun stalled => ?_⟩, fun stalled => ⟨fun count => ?_, fun limit => ?_⟩⟩
  · rintro ⟨report, later, success, idle⟩
    exact stalled_of_idle_round wellFormed success idle
  · exact ⟨_, _, attempt_round_of_stalled wellFormed stalled, rfl⟩
  · obtain ⟨inOrder, stuck, -⟩ := afterRounds_of_stalled wellFormed stalled count
    obtain ⟨-, -, same⟩ := afterRounds_of_stalled wellFormed stalled (count + 1)
    refine ⟨⟨0, [], (afterRounds scheduler count).threads.map Thread.id⟩, ?_, rfl, same⟩
    refine Prod.ext ?_ rfl
    rw [attempt_round_of_stalled inOrder stuck]
  · refine ⟨scheduler.rewound, ?_, withoutPc_rewound scheduler⟩
    have sameNames : scheduler.rewound.threads.map Thread.id =
        scheduler.threads.map Thread.id := by
      unfold rewound
      simp only [List.map_map]
      rfl
    rw [attempt_run_succ inhabited, attempt_round_of_stalled wellFormed stalled]
    simp only [sameNames]
    rfl

/-- A method that locks the objects of its two arguments, one after the other, and releases
them. -/
def lockBoth : Method :=
  ⟨#[0x2a, 0xc2, 0x2b, 0xc2, 0x2b, 0xc3, 0x2a, 0xc3], 1, 2⟩

/-- Two threads that each have entered the monitor of one object and want that of the other. -/
def crossing : Scheduler :=
  let empty := create { quantum := 2, heapCapacity := 4 }
  let one := ((onHeap (Heap.allocate "A")).attempt empty).2
  let both := ((onHeap (Heap.allocate "B")).attempt one).2
  let first := ((spawn lockBoth [.reference ⟨0⟩, .reference ⟨1⟩]).attempt both).2
  let second := ((spawn lockBoth [.reference ⟨1⟩, .reference ⟨0⟩]).attempt first).2
  afterRounds second 2

theorem idle_round_crossing :
    crossing.Reachable ∧ crossing.threads.map Thread.id = [⟨0⟩, ⟨1⟩] ∧
    (∀ thread ∈ crossing.threads, thread.StuckAgainst crossing.heap) ∧
    (∃ report later, round.attempt crossing = (.ok report, later) ∧
      report.madeProgress = false) ∧
    ∃ later,
      (run 1).attempt crossing = (.error (.deadlock (crossing.threads.map Thread.id)), later) ∧
      later.withoutPc = crossing.withoutPc := by
  have reachable : crossing.Reachable :=
    ((((((Reachable.create _).onHeap _).onHeap _).spawn _ _).spawn _ _).round).round
  have stalled : ∀ thread ∈ crossing.threads, thread.StuckAgainst crossing.heap := by
    decide +kernel
  obtain ⟨exact, permanent⟩ := idle_round_iff_stalled reachable (by decide +kernel)
  exact ⟨reachable, by decide +kernel, stalled, exact.mpr stalled, (permanent stalled).2 0⟩

end Scheduler

end BytecodeMachine
