/-
This file keeps account of the past of a scheduler: which threads were started,
and which were reported as ended. No thread gets lost on the way, whatever
attempts to start one were refused and whatever rounds were broken off by a
fault: a thread that was started is in the table or was reported. As long as
nobody but the threads touches a monitor, its holder is one of those that were
started.
-/

import BytecodeMachine.Proofs.Scheduler.Reachable

namespace BytecodeMachine

/-- The heap was changed by nothing but an attempt to allocate an object. -/
def Heap.Allocates (before after : Heap) : Prop :=
  ∃ className, after = ((Heap.allocate className).attempt before).2

namespace Scheduler

/-! ### Names in the table -/

/-- The names of the threads in the table. -/
def ids (scheduler : Scheduler) : List ThreadId :=
  scheduler.threads.map Thread.id

/-- A thread that is enrolled takes the place of the one of its name or a new one at the end. -/
theorem ids_enrol (thread : Thread) (threads : List Thread) :
    (enrol thread threads).map Thread.id =
      if thread.id ∈ threads.map Thread.id then threads.map Thread.id
      else threads.map Thread.id ++ [thread.id] := by
  have known : threads.any (·.id == thread.id) ↔ thread.id ∈ threads.map Thread.id := by
    simp [List.any_eq_true]
  have sameName : ∀ other ∈ threads,
      (if other.id = thread.id then thread else other).id = other.id := by
    intro other _
    split
    · next same => exact same.symm
    · rfl
  simp only [enrol, known]
  split
  · rw [List.map_map]
    exact List.map_congr_left sameName
  · rw [List.map_append, List.map_singleton]

theorem mem_ids_enrol {thread : Thread} {threads : List Thread} {id : ThreadId} :
    id ∈ (enrol thread threads).map Thread.id ↔ id = thread.id ∨ id ∈ threads.map Thread.id := by
  rw [ids_enrol]
  split
  · next known =>
    exact ⟨Or.inr, fun either => either.elim (fun same => same ▸ known) fun present => present⟩
  · rw [List.mem_append, List.mem_singleton, or_comm]

theorem nodup_ids_enrol {thread : Thread} {threads : List Thread}
    (distinct : (threads.map Thread.id).Nodup) :
    ((enrol thread threads).map Thread.id).Nodup := by
  rw [ids_enrol]
  split
  · exact distinct
  · next new =>
    refine List.nodup_append.mpr ⟨distinct, List.pairwise_singleton _ _, ?_⟩
    intro id member other last same
    rw [List.mem_singleton] at last
    exact new (last ▸ same ▸ member)

/-- In a table without repetitions a thread is found under its name. -/
theorem thread?_of_mem {scheduler : Scheduler} (distinct : scheduler.ids.Nodup) {thread : Thread}
    (member : thread ∈ scheduler.threads) : scheduler.thread? thread.id = some thread := by
  obtain ⟨earlier, later, split⟩ := List.append_of_mem member
  rw [ids, split, List.map_append, List.map_cons, List.nodup_append] at distinct
  rw [thread?, List.find?_eq_some_iff_append]
  refine ⟨beq_self_eq_true _, earlier, later, split, fun other before => ?_⟩
  have apart := distinct.2.2 other.id (List.mem_map_of_mem before) thread.id List.mem_cons_self
  simpa using apart

/-! ### What a round does to the table -/

/-- A round that fails keeps all threads in the table. -/
theorem ids_of_round_error {scheduler after : Scheduler} {fault : Fault}
    (failed : round.attempt scheduler = (.error fault, after)) : after.ids = scheduler.ids := by
  have names := ids_attemptRoundOf scheduler.quantum scheduler.threads scheduler.heap
  rw [attempt_round] at failed
  rcases turns : attemptRoundOf scheduler.quantum scheduler.threads scheduler.heap with
    ⟨_ | report, reached, heap⟩ <;> rw [turns] at failed names <;> cases failed
  exact names

/-- After a round that succeeds, the threads without frames are those reported as ended, and the
others are left in the table. -/
theorem exists_threads_of_round {scheduler after : Scheduler} {report : Round}
    (success : round.attempt scheduler = (.ok report, after)) :
    ∃ threads : List Thread, threads.map Thread.id = scheduler.ids ∧
      report.terminated = (threads.filter Thread.isTerminated).map Thread.id ∧
      after.ids = (threads.filter (!·.isTerminated)).map Thread.id := by
  obtain ⟨threads, heap, turns, rfl⟩ := round_eq_ok success
  have names := ids_attemptRoundOf scheduler.quantum scheduler.threads scheduler.heap
  rw [turns] at names
  exact ⟨threads, names, terminated_of_attemptRoundOf turns, rfl⟩

/-- Every thread of the table is reported as ended or kept, and no other is. -/
theorem perm_ids_of_round {scheduler after : Scheduler} {report : Round}
    (success : round.attempt scheduler = (.ok report, after)) :
    (report.terminated ++ after.ids).Perm scheduler.ids := by
  obtain ⟨threads, names, gone, left⟩ := exists_threads_of_round success
  rw [gone, left, ← names, ← List.map_append]
  exact (List.filter_append_perm Thread.isTerminated threads).map Thread.id

theorem ids_sublist_of_round {scheduler after : Scheduler} {report : Round}
    (success : round.attempt scheduler = (.ok report, after)) :
    after.ids.Sublist scheduler.ids := by
  obtain ⟨threads, names, -, left⟩ := exists_threads_of_round success
  rw [left, ← names]
  exact List.filter_sublist.map Thread.id

theorem terminated_sublist_of_round {scheduler after : Scheduler} {report : Round}
    (success : round.attempt scheduler = (.ok report, after)) :
    report.terminated.Sublist scheduler.ids := by
  obtain ⟨threads, names, gone, -⟩ := exists_threads_of_round success
  rw [gone, ← names]
  exact List.filter_sublist.map Thread.id

/-- The threads reported as waiting stay in the table. -/
theorem waiting_sublist_of_round {scheduler after : Scheduler} {report : Round}
    (success : round.attempt scheduler = (.ok report, after)) :
    report.waiting.Sublist after.ids := by
  obtain ⟨threads, heap, turns, rfl⟩ := round_eq_ok success
  exact waiting_of_attemptRoundOf turns

theorem executed_le_of_round {scheduler after : Scheduler} {report : Round}
    (success : round.attempt scheduler = (.ok report, after)) :
    report.executed ≤ scheduler.quantum * scheduler.liveThreads := by
  obtain ⟨threads, heap, turns, rfl⟩ := round_eq_ok success
  exact executed_le_of_attemptRoundOf turns

/-! ### The past -/

/-- The thread that an attempt to start one has started, if it was not refused. -/
def startedIn (answer : Except Fault ThreadId) : List ThreadId :=
  answer.toOption.toList

/-- The threads that a round reports as ended; a round that fails reports nothing. -/
def endedIn : Except Fault Round → List ThreadId
  | .ok report => report.terminated
  | .error _ => []

/-- A scheduler comes from a new one by attempts to start threads, by rounds and by certain
changes of the heap from outside, in any order and whether they succeed or fail. On the way
threads were started and reported as ended, in the order given. -/
inductive Past (change : Heap → Heap → Prop) :
    Scheduler → (started ended : List ThreadId) → Prop
  | create (config : SchedulerConfig) : Past change (create config) [] []
  | spawn {scheduler : Scheduler} {started ended : List ThreadId}
      (before : Past change scheduler started ended) (method : Method) (arguments : List Value) :
      Past change ((spawn method arguments).attempt scheduler).2
        (started ++ startedIn ((spawn method arguments).attempt scheduler).1) ended
  | round {scheduler : Scheduler} {started ended : List ThreadId}
      (before : Past change scheduler started ended) :
      Past change (round.attempt scheduler).2 started
        (ended ++ endedIn (round.attempt scheduler).1)
  | outside {scheduler : Scheduler} {started ended : List ThreadId}
      (before : Past change scheduler started ended) {heap : Heap}
      (changed : change scheduler.heap heap) : Past change { scheduler with heap } started ended

namespace Past

variable {change : Heap → Heap → Prop} {scheduler : Scheduler} {started ended : List ThreadId}

theorem reachable (past : Past change scheduler started ended) : scheduler.Reachable := by
  induction past with
  | create config => exact Reachable.create config
  | spawn before method arguments inductionHypothesis =>
    exact inductionHypothesis.spawn method arguments
  | round before inductionHypothesis => exact inductionHypothesis.round
  | @outside _ _ _ before heap changed inductionHypothesis =>
    exact inductionHypothesis.onHeap (set heap)

/-- A run is a number of rounds. -/
theorem run (past : Past change scheduler started ended) (limit : Nat) :
    ∃ more, Past change ((run limit).attempt scheduler).2 started (ended ++ more) := by
  induction limit generalizing scheduler ended with
  | zero =>
    refine ⟨[], ?_⟩
    rw [run_zero, Action.attempt_bind_of_ok _ (Action.attempt_get _), List.append_nil]
    exact past
  | succ limit inductionHypothesis =>
    by_cases inhabited : scheduler.threads = []
    · refine ⟨[], ?_⟩
      rwa [attempt_run_of_empty inhabited, List.append_nil]
    · have next := past.round
      rw [attempt_run_succ inhabited]
      rcases outcome : Scheduler.round.attempt scheduler with ⟨fault | report, reached⟩ <;>
        rw [outcome] at next
      · exact ⟨_, next⟩
      · obtain ⟨more, rest⟩ := inductionHypothesis next
        rw [List.append_assoc] at rest
        by_cases progress : report.madeProgress
        · simp only [progress, if_true]
          exact ⟨_, rest⟩
        · simp only [progress, Bool.false_eq_true, if_false]
          exact ⟨_, next⟩

end Past

/-! ### Nobody gets lost -/

/-- The table accounts for the threads started: each of them is in the table or was reported as
ended, and nobody else is in the table. -/
structure AccountsFor (scheduler : Scheduler) (started ended : List ThreadId) : Prop where
  distinct : scheduler.ids.Nodup
  mem_started : ∀ id ∈ scheduler.ids, id ∈ started
  mem_or_ended : ∀ id ∈ started, id ∈ scheduler.ids ∨ id ∈ ended

namespace AccountsFor

variable {scheduler : Scheduler} {started ended : List ThreadId}

theorem spawn (accounts : scheduler.AccountsFor started ended) (method : Method)
    (arguments : List Value) :
    ((spawn method arguments).attempt scheduler).2.AccountsFor
      (started ++ startedIn ((spawn method arguments).attempt scheduler).1) ended := by
  rw [attempt_spawn]
  rcases outcome : (Thread.pushFrame method arguments).attempt (.start ⟨scheduler.nextId⟩) with
    ⟨fault | _, thread⟩ <;> simp only
  · rw [startedIn, Except.toOption, Option.toList_none, List.append_nil]
    exact accounts
  · obtain ⟨frame, rfl, -⟩ := Thread.exists_frame_of_pushFrame outcome
    refine ⟨nodup_ids_enrol accounts.distinct, fun id member => ?_, fun id member => ?_⟩
    · rw [List.mem_append]
      obtain rfl | present := mem_ids_enrol.mp member
      · exact Or.inr (List.mem_singleton_self _)
      · exact Or.inl (accounts.mem_started id present)
    · obtain former | new := List.mem_append.mp member
      · exact (accounts.mem_or_ended id former).imp_left fun present =>
          mem_ids_enrol.mpr (Or.inr present)
      · exact Or.inl (mem_ids_enrol.mpr (Or.inl (List.mem_singleton.mp new)))

theorem round (accounts : scheduler.AccountsFor started ended) :
    (round.attempt scheduler).2.AccountsFor started
      (ended ++ endedIn (round.attempt scheduler).1) := by
  rcases outcome : Scheduler.round.attempt scheduler with ⟨fault | report, after⟩
  · have same := ids_of_round_error outcome
    rw [endedIn, List.append_nil]
    exact ⟨same ▸ accounts.distinct, same ▸ accounts.mem_started, same ▸ accounts.mem_or_ended⟩
  · have remain := ids_sublist_of_round outcome
    refine ⟨remain.nodup accounts.distinct, fun id member => ?_, fun id member => ?_⟩
    · exact accounts.mem_started id (remain.subset member)
    · obtain present | former := accounts.mem_or_ended id member
      · obtain gone | still := List.mem_append.mp ((perm_ids_of_round outcome).mem_iff.mpr present)
        · exact Or.inr (List.mem_append_right _ gone)
        · exact Or.inl still
      · exact Or.inr (List.mem_append_left _ former)

end AccountsFor

namespace Past

variable {change : Heap → Heap → Prop} {scheduler : Scheduler} {started ended : List ThreadId}

theorem accountsFor (past : Past change scheduler started ended) :
    scheduler.AccountsFor started ended := by
  induction past with
  | create config => exact ⟨List.nodup_nil, nofun, nofun⟩
  | spawn before method arguments inductionHypothesis =>
    exact inductionHypothesis.spawn method arguments
  | round before inductionHypothesis => exact inductionHypothesis.round
  | outside before changed inductionHypothesis =>
    exact ⟨inductionHypothesis.distinct, inductionHypothesis.mem_started,
      inductionHypothesis.mem_or_ended⟩

/-- Only threads that were started hold monitors, if nothing but allocations changed the heap
from outside. -/
theorem owner_mem (past : Past Heap.Allocates scheduler started ended) {index : Nat}
    {owner : ThreadId} (locked : scheduler.heap.LockedBy index owner) : owner ∈ started := by
  induction past with
  | create config =>
    obtain ⟨_, found, -⟩ := locked
    cases found
  | @spawn scheduler started _ before method arguments inductionHypothesis =>
    have sameHeap : ((Scheduler.spawn method arguments).attempt scheduler).2.heap =
        scheduler.heap := by
      rw [attempt_spawn]
      split <;> rfl
    rw [sameHeap] at locked
    exact List.mem_append_left _ (inductionHypothesis locked)
  | @round scheduler started _ before inductionHypothesis =>
    by_cases present : owner ∈ scheduler.ids
    · exact before.accountsFor.mem_started owner present
    · -- a thread outside of the table has held the monitor all along
      have same := sameFor_attemptRoundOf before.reachable.wellFormed.thread_wellFormed present
        scheduler.quantum scheduler.heap
      refine inductionHypothesis ((same.lockedBy_iff index).mpr ?_)
      rw [attempt_round] at locked
      rcases turns : attemptRoundOf scheduler.quantum scheduler.threads scheduler.heap with
        ⟨_ | report, reached, heap⟩ <;> rw [turns] at locked <;> exact locked
  | outside before changed inductionHypothesis =>
    obtain ⟨className, rfl⟩ := changed
    obtain ⟨monitor, found, own⟩ := locked
    rw [Heap.monitorAt_allocate] at found
    exact inductionHypothesis ⟨monitor, found, own⟩

end Past

/-- However a scheduler has come about, it has a past. -/
theorem Reachable.exists_past {scheduler : Scheduler} (reachable : scheduler.Reachable) :
    ∃ started ended, Past (fun _ _ => True) scheduler started ended := by
  induction reachable with
  | create config => exact ⟨_, _, Past.create config⟩
  | spawn before method arguments inductionHypothesis =>
    obtain ⟨_, _, past⟩ := inductionHypothesis
    exact ⟨_, _, past.spawn method arguments⟩
  | round before inductionHypothesis =>
    obtain ⟨_, _, past⟩ := inductionHypothesis
    exact ⟨_, _, past.round⟩
  | run before limit inductionHypothesis =>
    obtain ⟨_, _, past⟩ := inductionHypothesis
    obtain ⟨_, onward⟩ := past.run limit
    exact ⟨_, _, onward⟩
  | onHeap before action inductionHypothesis =>
    obtain ⟨_, _, past⟩ := inductionHypothesis
    exact ⟨_, _, past.outside trivial⟩

theorem Reachable.nodup_ids {scheduler : Scheduler} (reachable : scheduler.Reachable) :
    scheduler.ids.Nodup := by
  obtain ⟨_, _, past⟩ := reachable.exists_past
  exact past.accountsFor.distinct

end Scheduler

end BytecodeMachine
