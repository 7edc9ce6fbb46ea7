/-
This file says which schedulers can come about and what holds of all of them:
a turn has at least one instruction, and every thread has at most one frame and
that in order. Nothing is assumed of what is done to the heap from outside of
the threads, since no part of this speaks of the heap. In a new scheduler the
threads have different numbers and stand at the beginning of their code.
-/

import BytecodeMachine.Proofs.Scheduler.Round

namespace BytecodeMachine.Scheduler

/-! ### Starting a thread -/

/-- A thread that is enrolled leaves in the table only threads of other names. -/
theorem mem_enrol {thread other : Thread} {threads : List Thread}
    (member : other ∈ enrol thread threads) :
    other = thread ∨ other ∈ threads ∧ other.id ≠ thread.id := by
  unfold enrol at member
  split at member
  · obtain ⟨former, present, rfl⟩ := List.mem_map.mp member
    split
    · exact Or.inl rfl
    · next different => exact Or.inr ⟨present, different⟩
  · next new =>
    rw [List.mem_append, List.mem_singleton] at member
    obtain present | last := member
    · refine Or.inr ⟨present, fun same => new ?_⟩
      exact List.any_eq_true.mpr ⟨other, present, beq_iff_eq.mpr same⟩
    · exact Or.inl last

theorem enrol_of_new {thread : Thread} {threads : List Thread}
    (new : ∀ other ∈ threads, other.id ≠ thread.id) :
    enrol thread threads = threads ++ [thread] := by
  have absent : threads.any (·.id == thread.id) = false := by
    rw [List.any_eq_false]
    intro other member same
    exact new other member (eq_of_beq same)
  rw [enrol, absent]
  rfl

theorem attempt_spawn (method : Method) (arguments : List Value) (scheduler : Scheduler) :
    (spawn method arguments).attempt scheduler =
      match (Thread.pushFrame method arguments).attempt (.start ⟨scheduler.nextId⟩) with
      | (.ok _, thread) =>
        (.ok ⟨scheduler.nextId⟩, { scheduler with
          threads := enrol thread scheduler.threads, nextId := scheduler.nextId + 1 })
      | (.error fault, _) => (.error fault, scheduler) := by
  rw [spawn, Action.attempt_bind_of_ok _ (Action.attempt_get _), Action.attempt_bind,
    Action.attempt_build]
  rcases (Thread.pushFrame method arguments).attempt (.start ⟨scheduler.nextId⟩) with
    ⟨_ | _, thread⟩ <;> rfl

/-! ### New schedulers -/

/-- A new scheduler over a heap. -/
def createOver (config : SchedulerConfig) (heap : Heap) : Scheduler :=
  { create config with heap }

/-- The threads of a scheduler have only been started, and their numbers are different and have
not passed a count. -/
structure Started (scheduler : Scheduler) (count : Nat) : Prop where
  nextId_le : scheduler.nextId.toNat ≤ count
  distinct : (scheduler.threads.map Thread.id).Nodup
  id_lt : ∀ thread ∈ scheduler.threads, thread.id.number.toNat < scheduler.nextId.toNat
  single : ∀ thread ∈ scheduler.threads,
    ∃ frame, thread.frames = [frame] ∧ frame.WellFormed thread.id

theorem Started.spawn {scheduler : Scheduler} {count : Nat} (started : scheduler.Started count)
    (few : count + 1 < UInt32.size) (method : Method) (arguments : List Value) :
    ((Scheduler.spawn method arguments).attempt scheduler).2.Started (count + 1) := by
  rw [attempt_spawn]
  split
  · next thread outcome =>
    obtain ⟨frame, rfl, inOrder⟩ := Thread.exists_frame_of_pushFrame outcome
    have bound := started.nextId_le
    have advanced : (scheduler.nextId + 1).toNat = scheduler.nextId.toNat + 1 := by
      rw [UInt32.toNat_add, UInt32.toNat_one, Nat.mod_eq_of_lt]
      exact Nat.lt_of_le_of_lt (Nat.succ_le_succ bound) few
    have new : ∀ other ∈ scheduler.threads, other.id ≠ ⟨scheduler.nextId⟩ := by
      rintro ⟨_, frames⟩ member rfl
      exact Nat.lt_irrefl _ (started.id_lt _ member)
    rw [enrol_of_new new]
    refine ⟨?_, ?_, ?_, ?_⟩
    · show (scheduler.nextId + 1).toNat ≤ count + 1
      omega
    · show ((scheduler.threads ++ [_]).map Thread.id).Nodup
      rw [List.map_append, List.nodup_append]
      refine ⟨started.distinct, List.pairwise_singleton _ _, ?_⟩
      intro id member other last
      obtain ⟨former, present, rfl⟩ := List.mem_map.mp member
      rw [List.map_singleton, List.mem_singleton] at last
      exact last ▸ new former present
    · show ∀ thread ∈ scheduler.threads ++ [_], _ < (scheduler.nextId + 1).toNat
      rw [List.forall_mem_append, List.forall_mem_singleton, advanced]
      exact ⟨fun thread present => Nat.lt_succ_of_lt (started.id_lt thread present),
        Nat.lt_succ_self _⟩
    · show ∀ thread ∈ scheduler.threads ++ [_], _
      rw [List.forall_mem_append, List.forall_mem_singleton]
      exact ⟨started.single, frame, rfl, inOrder⟩
  · exact ⟨Nat.le_succ_of_le started.nextId_le, started.distinct, started.id_lt, started.single⟩

/-! ### Reachable schedulers -/

/-- A scheduler that comes about from a new one by starting threads, by rounds, by runs and by
anything that is done to the heap, in any order and whether it succeeds or fails. -/
inductive Reachable : Scheduler → Prop
  | create (config : SchedulerConfig) : Reachable (create config)
  | spawn {scheduler : Scheduler} (before : Reachable scheduler) (method : Method)
      (arguments : List Value) : Reachable ((spawn method arguments).attempt scheduler).2
  | round {scheduler : Scheduler} (before : Reachable scheduler) :
      Reachable (round.attempt scheduler).2
  | run {scheduler : Scheduler} (before : Reachable scheduler) (limit : Nat) :
      Reachable ((run limit).attempt scheduler).2
  | onHeap {scheduler : Scheduler} (before : Reachable scheduler) {α : Type}
      (action : Action Heap α) : Reachable ((onHeap action).attempt scheduler).2

/-- A scheduler is in order when its turns have an instruction and its threads are in order. -/
structure WellFormed (scheduler : Scheduler) : Prop where
  quantum_pos : 0 < scheduler.quantum
  thread_wellFormed : ∀ thread ∈ scheduler.threads, thread.WellFormed

theorem wellFormed_create (config : SchedulerConfig) : (create config).WellFormed :=
  ⟨Nat.le_max_right config.quantum 1, nofun⟩

theorem keeps_spawn (method : Method) (arguments : List Value) :
    (spawn method arguments).Keeps WellFormed := by
  intro scheduler wellFormed
  rw [attempt_spawn]
  split
  · next thread started =>
    refine ⟨wellFormed.quantum_pos, fun other member => ?_⟩
    obtain rfl | ⟨present, -⟩ := mem_enrol member
    · exact Thread.wellFormed_of_pushFrame started
    · exact wellFormed.thread_wellFormed other present
  · exact wellFormed

theorem keeps_round : round.Keeps WellFormed := by
  intro scheduler wellFormed
  refine ⟨wellFormed.quantum_pos, fun thread member => ?_⟩
  have kept := keeps_roundOf (Thread.keeps_turn_wellFormed scheduler.quantum)
  exact kept scheduler.threads scheduler.heap wellFormed.thread_wellFormed thread
    (mem_threads_round member)

theorem keeps_onHeap {α : Type} (action : Action Heap α) : (onHeap action).Keeps WellFormed :=
  fun _ wellFormed => ⟨wellFormed.quantum_pos, wellFormed.thread_wellFormed⟩

theorem Reachable.wellFormed {scheduler : Scheduler} (reachable : scheduler.Reachable) :
    scheduler.WellFormed := by
  induction reachable with
  | create config => exact wellFormed_create config
  | spawn before method arguments inductionHypothesis =>
    exact keeps_spawn method arguments _ inductionHypothesis
  | round before inductionHypothesis => exact keeps_round _ inductionHypothesis
  | run before limit inductionHypothesis => exact keeps_run keeps_round limit _ inductionHypothesis
  | onHeap before action inductionHypothesis => exact keeps_onHeap action _ inductionHypothesis

end BytecodeMachine.Scheduler
