/-
This file shows that threads without a common object do not influence each
other. Main statement: after any number of rounds of a new scheduler every
thread and every object to which it refers are as after the same number of
turns of that thread alone on a copy of the heap.

In a round the turn of a thread comes to the same as its turn alone, since the
heap that it finds agrees with its own copy on what it refers to. What the turn
then does to the heap is out of reach for all other threads, so that the heap
still agrees with the copies of these.
-/

import Mathlib.Data.List.Nodup
import BytecodeMachine.Proofs.Scheduler.Deadlock
import BytecodeMachine.Proofs.Scheduler.Origins
import BytecodeMachine.Proofs.Thread.Solo

namespace BytecodeMachine

/-! ### Threads without a common object -/

namespace Start

/-- No argument of one thread is a reference that is also an argument of the other. -/
def Apart (one other : Start) : Prop :=
  ∀ reference, .reference reference ∈ one.arguments → .reference reference ∉ other.arguments

theorem Apart.not_refersTo {one other : Start} (apart : one.Apart other) {index : Nat}
    (refers : one.RefersTo index) : ¬ other.RefersTo index := by
  obtain ⟨⟨place⟩, member, rfl⟩ := refers
  rintro ⟨⟨other⟩, shared, same⟩
  cases UInt32.toNat_inj.mp same
  exact apart _ member shared

/-- The thread waits at the end of the turn that follows a number of turns of it alone. -/
def WaitsAlone (start : Start) (quantum : Nat) (heap : Heap) (count : Nat) : Prop :=
  ∃ executed, start.turnAlone quantum heap count = .ok ⟨executed, .waitingForMonitor⟩

end Start

namespace Scheduler

/-! ### New schedulers -/

/-- The scheduler has come from another one by nothing but attempts to start threads. The threads
that have been started are listed. -/
inductive Launched (base : Scheduler) : List Start → Scheduler → Prop
  | none : Launched base [] base
  | spawned {starts : List Start} {scheduler after : Scheduler} {method : Method}
      {arguments : List Value} {id : ThreadId} (before : Launched base starts scheduler)
      (accepted : (spawn method arguments).attempt scheduler = (.ok id, after)) :
      Launched base (starts ++ [⟨id, method, arguments⟩]) after
  | refused {starts : List Start} {scheduler after : Scheduler} {method : Method}
      {arguments : List Value} {fault : Fault} (before : Launched base starts scheduler)
      (failed : (spawn method arguments).attempt scheduler = (.error fault, after)) :
      Launched base starts after

/-- A new scheduler holds the threads as they were started. -/
structure IsNew (base : Scheduler) (starts : List Start) (scheduler : Scheduler) : Prop where
  started : scheduler.Started starts.length
  quantum_eq : scheduler.quantum = base.quantum
  heap_eq : scheduler.heap = base.heap
  threads_eq : scheduler.threads = starts.map Start.thread

namespace IsNew

variable {base scheduler : Scheduler} {starts : List Start}

theorem distinct (new : IsNew base starts scheduler) : (starts.map Start.id).Nodup := by
  have names : scheduler.threads.map Thread.id = starts.map Start.id := by
    rw [new.threads_eq, List.map_map]
    exact List.map_congr_left fun start _ => start.stemsFrom_thread.id_eq
  exact names ▸ new.started.distinct

theorem isTerminated_eq_false (new : IsNew base starts scheduler) {start : Start}
    (member : start ∈ starts) : start.thread.isTerminated = false := by
  have present := new.threads_eq ▸ List.mem_map_of_mem member
  obtain ⟨frame, single, -⟩ := new.started.single start.thread present
  rw [Thread.isTerminated, single]
  rfl

/-- As long as the numbers have not come round, the next thread is behind all others. -/
theorem spawned (new : IsNew base starts scheduler) (few : starts.length + 1 < UInt32.size)
    {after : Scheduler} {method : Method} {arguments : List Value} {id : ThreadId}
    (accepted : (spawn method arguments).attempt scheduler = (.ok id, after)) :
    IsNew base (starts ++ [⟨id, method, arguments⟩]) after := by
  have started := new.started.spawn few method arguments
  rw [accepted] at started
  obtain ⟨rfl, rfl⟩ := spawn_eq_ok accepted
  have unknown : ∀ other ∈ scheduler.threads,
      other.id ≠ (Start.thread ⟨⟨scheduler.nextId⟩, method, arguments⟩).id := by
    intro other member same
    have below := new.started.id_lt other member
    rw [same, (Start.stemsFrom_thread _).id_eq] at below
    exact Nat.lt_irrefl _ below
  refine ⟨?_, new.quantum_eq, new.heap_eq, ?_⟩
  · rw [List.length_append, List.length_singleton]
    exact started
  · rw [List.map_append, ← new.threads_eq]
    exact enrol_of_new unknown

end IsNew

theorem Launched.isNew {config : SchedulerConfig} {heap : Heap} {starts : List Start}
    {scheduler : Scheduler} (launched : Launched (createOver config heap) starts scheduler)
    (few : starts.length < UInt32.size) :
    IsNew (createOver config heap) starts scheduler := by
  induction launched with
  | none => exact ⟨⟨Nat.le_refl 0, List.nodup_nil, nofun, nofun⟩, rfl, rfl, rfl⟩
  | refused before failed inductionHypothesis =>
    cases spawn_eq_error failed
    exact inductionHypothesis few
  | spawned before accepted inductionHypothesis =>
    rw [List.length_append, List.length_singleton] at few
    exact (inductionHypothesis (Nat.lt_of_succ_lt few)).spawned few accepted

/-! ### Rounds of threads without a common object -/

/-- The threads that are left of those that were started when each had a number of turns alone. -/
def leftAlone (quantum : Nat) (heap : Heap) (count : Nat) (starts : List Start) : List Thread :=
  (starts.map fun start => (start.alone quantum heap count).1).filter (!·.isTerminated)

/-- No thread refers to the object at an index. -/
def Unreferenced (starts : List Start) (index : Nat) : Prop :=
  ∀ start ∈ starts, ¬ start.RefersTo index

/-- Each thread finds what it refers to as if it had been alone with the heap. -/
def AsAlone (quantum : Nat) (heap : Heap) (count : Nat) (starts : List Start) (shared : Heap) :
    Prop :=
  ∀ start ∈ starts, Heap.AgreeOn start.RefersTo shared (start.alone quantum heap count).2

theorem leftAlone_cons (quantum : Nat) (heap : Heap) (count : Nat) (start : Start)
    (others : List Start) :
    leftAlone quantum heap count (start :: others) =
      leftAlone quantum heap count [start] ++ leftAlone quantum heap count others := by
  rw [leftAlone, ← List.singleton_append, List.map_append, List.filter_append]
  rfl

section Turns

variable {quantum count : Nat} {heap shared last : Heap} {reached : List Thread} {report : Round}

/-- The turn of the first thread, if that is left, comes to the same as its turn alone. The others
have their turns on a heap that differs in nothing but what the first thread refers to. -/
theorem exists_rest_of_leftAlone {start : Start} {others : List Start}
    (asAlone : Heap.AgreeOn start.RefersTo shared (start.alone quantum heap count).2)
    (success : attemptRoundOf quantum (leftAlone quantum heap count (start :: others)) shared =
      (.ok report, (reached, last))) :
    ∃ between behind rest,
      attemptRoundOf quantum (leftAlone quantum heap count others) between =
        (.ok behind, (rest, last)) ∧
      Heap.AgreeOn (fun index => ¬ start.RefersTo index) shared between ∧
      Heap.AgreeOn start.RefersTo between (start.alone quantum heap (count + 1)).2 ∧
      reached.filter (!·.isTerminated) =
        leftAlone quantum heap (count + 1) [start] ++ rest.filter (!·.isTerminated) ∧
      ∀ id, id ∈ report.waiting ↔
        start.id = id ∧ start.WaitsAlone quantum heap count ∨ id ∈ behind.waiting := by
  have stems := start.stemsFrom_alone quantum heap count
  rw [leftAlone_cons] at success
  cases gone : (start.alone quantum heap count).1.isTerminated with
  | true =>
    have still := Thread.attempt_turn_of_terminated gone quantum (start.alone quantum heap count).2
    have noWait : ¬ start.WaitsAlone quantum heap count := by
      rintro ⟨executed, waits⟩
      cases (congrArg Prod.fst still).symm.trans waits
    have none : leftAlone quantum heap count [start] = [] := by simp [leftAlone, gone]
    have same : start.alone quantum heap (count + 1) = start.alone quantum heap count :=
      congrArg Prod.snd still
    rw [none, List.nil_append] at success
    refine ⟨shared, report, reached, success, Heap.AgreeOn.refl _ shared, same ▸ asAlone, ?_, ?_⟩
    · simp [leftAlone, same, gone]
    · simp [noWait]
  | false =>
    have single : leftAlone quantum heap count [start] = [(start.alone quantum heap count).1] := by
      simp [leftAlone, gone]
    rw [single, List.singleton_append] at success
    obtain ⟨turn, first, between, behind, rest, turned, rested, rfl, rfl⟩ :=
      attemptRoundOf_cons_eq_ok success
    obtain ⟨after, beside, unnoticed, still⟩ := start.exists_turn_beside quantum heap asAlone
    simp only [turned, Prod.mk.injEq] at beside
    obtain ⟨answer, rfl, rfl⟩ := beside
    have named := (start.stemsFrom_alone quantum heap (count + 1)).id_eq
    refine ⟨between, behind, rest, rested, unnoticed, still, ?_, fun id => ?_⟩
    · rw [← List.singleton_append, List.filter_append]
      rfl
    · have waits : start.WaitsAlone quantum heap count ↔ turn.state = .waitingForMonitor := by
        obtain ⟨executed, state⟩ := turn
        simp [Start.WaitsAlone, ← answer]
      rw [waits, Round.after, named]
      by_cases waiting : turn.state = .waitingForMonitor <;> simp [waiting, eq_comm]

/-- The turns of the threads that are left come to the same as the turns of each alone. The
induction is on the threads: what one of them does, the others do not notice. -/
theorem attemptRoundOf_leftAlone {starts : List Start} (apart : starts.Pairwise Start.Apart)
    (asAlone : AsAlone quantum heap count starts shared)
    (success : attemptRoundOf quantum (leftAlone quantum heap count starts) shared =
      (.ok report, (reached, last))) :
    reached.filter (!·.isTerminated) = leftAlone quantum heap (count + 1) starts ∧
      AsAlone quantum heap (count + 1) starts last ∧
      Heap.AgreeOn (Unreferenced starts) shared last ∧
      ∀ id, id ∈ report.waiting ↔
        ∃ start ∈ starts, start.id = id ∧ start.WaitsAlone quantum heap count := by
  induction starts generalizing shared reached report with
  | nil =>
    cases success
    exact ⟨rfl, nofun, Heap.AgreeOn.refl _ last, by simp⟩
  | cons start others inductionHypothesis =>
    rw [List.pairwise_cons] at apart
    obtain ⟨mine, theirs⟩ := List.forall_mem_cons.mp asAlone
    obtain ⟨between, behind, rest, rested, unnoticed, still, left, waiting⟩ :=
      exists_rest_of_leftAlone mine success
    have theirsStill : AsAlone quantum heap count others between := fun other member =>
      (unnoticed.mono fun _ refers mine =>
        (apart.1 other member).not_refersTo mine refers).symm.trans (theirs other member)
    obtain ⟨leftBehind, asAloneBehind, unnoticedBehind, waitingBehind⟩ :=
      inductionHypothesis apart.2 theirsStill rested
    refine ⟨?_, List.forall_mem_cons.mpr ⟨?_, asAloneBehind⟩, ?_, fun id => ?_⟩
    · rw [leftAlone_cons, left, leftBehind]
    · refine (unnoticedBehind.mono fun index refers other member => ?_).symm.trans still
      exact (apart.1 other member).not_refersTo refers
    · have first : Heap.AgreeOn (Unreferenced (start :: others)) shared between :=
        unnoticed.mono fun index none => none start List.mem_cons_self
      exact first.trans (unnoticedBehind.mono fun index none other member =>
        none other (List.mem_cons_of_mem start member))
    · rw [waiting, waitingBehind]
      simp

end Turns

/-! ### Any number of rounds -/

/-- After a number of rounds the scheduler is made up of what the threads have come to alone. -/
structure MadeUpOf (quantum : Nat) (heap : Heap) (starts : List Start) (count : Nat)
    (scheduler : Scheduler) : Prop where
  quantum_eq : scheduler.quantum = quantum
  threads_eq : scheduler.threads = leftAlone quantum heap count starts
  asAlone : AsAlone quantum heap count starts scheduler.heap
  unnoticed : Heap.AgreeOn (Unreferenced starts) heap scheduler.heap

theorem IsNew.madeUpOf {base scheduler : Scheduler} {starts : List Start}
    (new : IsNew base starts scheduler) :
    scheduler.MadeUpOf base.quantum base.heap starts 0 := by
  refine ⟨new.quantum_eq, ?_, fun start member => ?_, ?_⟩
  · rw [new.threads_eq, leftAlone]
    refine (List.filter_eq_self.mpr fun thread member => ?_).symm
    obtain ⟨start, present, rfl⟩ := List.mem_map.mp member
    show (!start.thread.isTerminated) = true
    rw [new.isTerminated_eq_false present]
    rfl
  · rw [new.heap_eq]
    exact Heap.AgreeOn.refl _ base.heap
  · rw [new.heap_eq]
    exact Heap.AgreeOn.refl _ base.heap

section Rounds

variable {quantum count : Nat} {heap : Heap} {starts : List Start} {scheduler later : Scheduler}
  {report : Round}

theorem MadeUpOf.round (madeUp : scheduler.MadeUpOf quantum heap starts count)
    (apart : starts.Pairwise Start.Apart)
    (success : Scheduler.round.attempt scheduler = (.ok report, later)) :
    later.MadeUpOf quantum heap starts (count + 1) ∧
      ∀ id, id ∈ report.waiting ↔
        ∃ start ∈ starts, start.id = id ∧ start.WaitsAlone quantum heap count := by
  obtain ⟨reached, last, turns, rfl⟩ := round_eq_ok success
  rw [madeUp.quantum_eq, madeUp.threads_eq] at turns
  obtain ⟨left, asAlone, unnoticed, waiting⟩ :=
    attemptRoundOf_leftAlone apart madeUp.asAlone turns
  exact ⟨⟨madeUp.quantum_eq, left, asAlone, madeUp.unnoticed.trans unnoticed⟩, waiting⟩

theorem MadeUpOf.afterRounds (madeUp : scheduler.MadeUpOf quantum heap starts 0)
    (apart : starts.Pairwise Start.Apart)
    (succeed : ∀ earlier < count,
      (Scheduler.round.attempt (scheduler.afterRounds earlier)).1.isOk) :
    (scheduler.afterRounds count).MadeUpOf quantum heap starts count := by
  induction count with
  | zero => exact madeUp
  | succ count inductionHypothesis =>
    have before := inductionHypothesis fun earlier sooner =>
      succeed earlier (Nat.lt_succ_of_lt sooner)
    have fine := succeed count (Nat.lt_succ_self count)
    rw [Scheduler.afterRounds]
    rcases rounded : Scheduler.round.attempt (scheduler.afterRounds count) with ⟨_ | report, later⟩
    · rw [rounded] at fine
      cases fine
    · exact (before.round apart rounded).1

end Rounds

/-! ### Names in the table -/

section Names

variable {quantum count : Nat} {heap : Heap} {starts : List Start}

theorem mem_leftAlone {thread : Thread} :
    thread ∈ leftAlone quantum heap count starts ↔
      ∃ start ∈ starts, thread = (start.alone quantum heap count).1 ∧
        thread.isTerminated = false := by
  rw [leftAlone, List.mem_filter, List.mem_map, Bool.not_eq_true']
  constructor
  · rintro ⟨⟨start, member, rfl⟩, alive⟩
    exact ⟨start, member, rfl, alive⟩
  · rintro ⟨start, member, rfl, alive⟩
    exact ⟨⟨start, member, rfl⟩, alive⟩

variable (distinct : (starts.map Start.id).Nodup) {start : Start} (member : start ∈ starts)

include distinct member

theorem eq_alone_of_mem {thread : Thread} (present : thread ∈ leftAlone quantum heap count starts)
    (named : thread.id = start.id) : thread = (start.alone quantum heap count).1 := by
  obtain ⟨other, alsoMember, rfl, -⟩ := mem_leftAlone.mp present
  rw [(other.stemsFrom_alone quantum heap count).id_eq] at named
  rw [List.inj_on_of_nodup_map distinct alsoMember member named]

theorem not_mem_ids_leftAlone_iff :
    start.id ∉ (leftAlone quantum heap count starts).map Thread.id ↔
      (start.alone quantum heap count).1.isTerminated := by
  rw [← Bool.not_eq_false, not_iff_not, List.mem_map]
  constructor
  · rintro ⟨thread, present, named⟩
    rw [← eq_alone_of_mem distinct member present named]
    obtain ⟨-, -, -, alive⟩ := mem_leftAlone.mp present
    exact alive
  · intro alive
    exact ⟨_, mem_leftAlone.mpr ⟨start, member, rfl, alive⟩,
      (start.stemsFrom_alone quantum heap count).id_eq⟩

end Names

/-- Threads that share no object do not influence each other. After rounds without a fault in a
new scheduler the table holds each thread as it comes to be by as many turns alone on a copy of
the heap, without those that such a turn has ended. The objects to which a thread refers have the
monitors that they have there, and all others the ones from before. In each of the rounds those
threads wait whose turns alone end in waiting, and without locked objects there are none. -/
theorem apart_threads_independent {config : SchedulerConfig} {heap : Heap} {starts : List Start}
    {scheduler : Scheduler} (launched : Launched (createOver config heap) starts scheduler)
    (few : starts.length < UInt32.size) (apart : starts.Pairwise Start.Apart) {count : Nat}
    (succeed : ∀ earlier < count, (round.attempt (scheduler.afterRounds earlier)).1.isOk) :
    (scheduler.afterRounds count).threads =
        (starts.map fun start => (start.alone (max config.quantum 1) heap count).1).filter
          (!·.isTerminated) ∧
    (∀ start ∈ starts,
      (∀ thread ∈ (scheduler.afterRounds count).threads, thread.id = start.id →
        thread = (start.alone (max config.quantum 1) heap count).1) ∧
      (start.id ∉ (scheduler.afterRounds count).threads.map Thread.id ↔
        ∃ earlier < count, ∃ executed,
          start.turnAlone (max config.quantum 1) heap earlier = .ok ⟨executed, .terminated⟩) ∧
      ∀ index, start.RefersTo index →
        (scheduler.afterRounds count).heap.monitorAt index =
          (start.alone (max config.quantum 1) heap count).2.monitorAt index) ∧
    (∀ index, (∀ start ∈ starts, ¬ start.RefersTo index) →
      (scheduler.afterRounds count).heap.monitorAt index = heap.monitorAt index) ∧
    ∀ earlier < count, ∀ report, (round.attempt (scheduler.afterRounds earlier)).1 = .ok report →
      (∀ start ∈ starts, start.id ∈ report.waiting ↔
        ∃ executed, start.turnAlone (max config.quantum 1) heap earlier =
          .ok ⟨executed, .waitingForMonitor⟩) ∧
      (heap.Unlocked → report.waiting = []) := by
  have new := launched.isNew few
  have madeUp {rounds : Nat} (within : rounds ≤ count) :=
    new.madeUpOf.afterRounds apart fun earlier sooner =>
      succeed earlier (Nat.lt_of_lt_of_le sooner within)
  have now := madeUp (Nat.le_refl count)
  refine ⟨now.threads_eq, fun start member => ⟨?_, ?_, (now.asAlone start member).monitorAt_eq⟩,
    fun index none => (now.unnoticed.monitorAt_eq index none).symm, ?_⟩
  · rw [now.threads_eq]
    exact fun thread present => eq_alone_of_mem new.distinct member present
  · rw [now.threads_eq, not_mem_ids_leftAlone_iff new.distinct member]
    exact start.isTerminated_alone_iff _ _ (new.isTerminated_eq_false member) count
  · intro earlier sooner report reported
    have waiting := ((madeUp (Nat.le_of_lt sooner)).round apart (Prod.ext reported rfl)).2
    refine ⟨fun start member => ?_, fun unlocked => ?_⟩
    · rw [waiting]
      constructor
      · rintro ⟨other, alsoMember, named, waits⟩
        cases List.inj_on_of_nodup_map new.distinct alsoMember member named
        exact waits
      · exact fun waits => ⟨start, member, rfl, waits⟩
    · refine List.eq_nil_iff_forall_not_mem.mpr fun id listed => ?_
      obtain ⟨start, -, -, executed, turned⟩ := (waiting id).mp listed
      exact start.turnAlone_ne_waitingForMonitor _ unlocked turned rfl

/-- The start of a thread that locks the object of its own number and releases it. -/
def locker (number : UInt32) : Start :=
  ⟨⟨number⟩, ⟨#[0x2a, 0xc2, 0x2a, 0xc3], 1, 1⟩, [.reference ⟨number⟩]⟩

/-- Two objects of which the second is locked by a thread that is not there. -/
def oneHeld : Heap :=
  ⟨#[⟨"A", none⟩, ⟨"B", some ⟨⟨7⟩, 1⟩⟩], 4⟩

/-- Two threads with turns of two instructions that lock an object each. -/
def strangers : Scheduler :=
  let first := ((spawn (locker 0).method (locker 0).arguments).attempt
    (createOver { quantum := 2 } oneHeld)).2
  ((spawn (locker 1).method (locker 1).arguments).attempt first).2

/-- The first of the two ends in its third turn, while the second goes on waiting. -/
theorem strangers_independent :
    Launched (createOver { quantum := 2 } oneHeld) [locker 0, locker 1] strangers ∧
    [locker 0, locker 1].Pairwise Start.Apart ∧
    (∀ earlier < 3, (round.attempt (strangers.afterRounds earlier)).1.isOk) ∧
    (strangers.afterRounds 3).threads = [((locker 1).alone 2 oneHeld 3).1] ∧
    ((locker 1).turnAlone 2 oneHeld 2 = .ok ⟨0, .waitingForMonitor⟩) ∧
    ∀ report, (round.attempt (strangers.afterRounds 2)).1 = .ok report →
      (locker 1).id ∈ report.waiting := by
  have launched : Launched (createOver { quantum := 2 } oneHeld) [locker 0, locker 1] strangers :=
    (Launched.none.spawned rfl).spawned rfl
  have apart : [locker 0, locker 1].Pairwise Start.Apart := by
    simp [Start.Apart, locker]
  have succeed : ∀ earlier < 3, (round.attempt (strangers.afterRounds earlier)).1.isOk := by
    decide +kernel
  have waits : (locker 1).turnAlone 2 oneHeld 2 = .ok ⟨0, .waitingForMonitor⟩ := by
    decide +kernel
  obtain ⟨table, -, -, waiting⟩ := apart_threads_independent launched (by decide) apart succeed
  refine ⟨launched, apart, succeed, table.trans (by decide +kernel), waits,
    fun report reported => ?_⟩
  have listed := (waiting 2 (by decide) report reported).1 (locker 1) (by simp)
  exact listed.mpr ⟨0, waits⟩

end Scheduler

end BytecodeMachine
