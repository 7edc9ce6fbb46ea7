/-
This file shows that threads which lock objects in the order of their indices
always come to their end, whatever the quantum. Main statement: a run of a new
scheduler with such threads, over a heap in which no object is locked, succeeds,
and it leaves no thread and no locked object.

The instructions and ends that all threads have ahead of them are counted. A
round fails for none of the threads and lowers the count by its own progress,
so it remains to be shown that it makes some. If it made none, every thread
would wait for a monitor. Its holder would wait for one of a larger index, the
holder of that one for one of a still larger index, and so on beyond the last
object of the heap.
-/

import BytecodeMachine.Proofs.Scheduler.Deadlock
import BytecodeMachine.Proofs.Thread.LockOrder

namespace BytecodeMachine.Scheduler

/-! ### New threads -/

/-- Starts a thread with each of some methods and their arguments. -/
def spawnEach : List (Method × List Value) → Scheduler → Scheduler
  | [], scheduler => scheduler
  | (method, arguments) :: later, scheduler =>
    spawnEach later ((spawn method arguments).attempt scheduler).2

theorem Started.spawnEach {scheduler : Scheduler} {count : Nat}
    (started : scheduler.Started count) (starts : List (Method × List Value))
    (few : count + starts.length < UInt32.size) :
    (Scheduler.spawnEach starts scheduler).Started (count + starts.length) := by
  induction starts generalizing scheduler count with
  | nil => exact started
  | cons first later inductionHypothesis =>
    rw [List.length_cons] at few ⊢
    have next := started.spawn (show count + 1 < UInt32.size by omega) first.1 first.2
    have rest := inductionHypothesis next (by omega)
    rwa [Nat.add_assoc, Nat.add_comm 1] at rest

theorem spawnEach_unchanged (starts : List (Method × List Value)) (scheduler : Scheduler) :
    (spawnEach starts scheduler).heap = scheduler.heap ∧
      (spawnEach starts scheduler).quantum = scheduler.quantum := by
  induction starts generalizing scheduler with
  | nil => exact ⟨rfl, rfl⟩
  | cons first later inductionHypothesis =>
    have one : ((spawn first.1 first.2).attempt scheduler).2.heap = scheduler.heap ∧
        ((spawn first.1 first.2).attempt scheduler).2.quantum = scheduler.quantum := by
      rw [attempt_spawn]
      split <;> exact ⟨rfl, rfl⟩
    obtain ⟨sameHeap, sameQuantum⟩ :=
      inductionHypothesis ((spawn first.1 first.2).attempt scheduler).2
    exact ⟨sameHeap.trans one.1, sameQuantum.trans one.2⟩

/-! ### What lies ahead of all threads -/

/-- All threads follow their own runs, and together they have a number of instructions and ends
ahead of them. -/
inductive AllOnCourse (heap : Heap) : List Thread → Nat → Prop
  | nil : AllOnCourse heap [] 0
  | cons {thread : Thread} {later : List Thread} {steps total : Nat}
      (first : thread.OnCourse steps heap) (rest : AllOnCourse heap later total) :
      AllOnCourse heap (thread :: later) (steps + 1 + total)

namespace AllOnCourse

variable {heap : Heap} {threads : List Thread} {total : Nat}

theorem of_forall (each : ∀ thread ∈ threads, ∃ steps, thread.OnCourse steps heap) :
    ∃ total, AllOnCourse heap threads total := by
  induction threads with
  | nil => exact ⟨0, nil⟩
  | cons thread later inductionHypothesis =>
    rw [List.forall_mem_cons] at each
    obtain ⟨⟨steps, first⟩, others⟩ := each
    obtain ⟨total, rest⟩ := inductionHypothesis others
    exact ⟨_, cons first rest⟩

theorem exists_onCourse (all : AllOnCourse heap threads total) {thread : Thread}
    (member : thread ∈ threads) : ∃ steps, thread.OnCourse steps heap := by
  induction all with
  | nil => cases member
  | cons first rest inductionHypothesis =>
    obtain rfl | behind := List.mem_cons.mp member
    · exact ⟨_, first⟩
    · exact inductionHypothesis behind

theorem of_sameFor (all : AllOnCourse heap threads total) {later : Heap}
    (same : ∀ thread ∈ threads, Heap.SameFor thread.id heap later) :
    AllOnCourse later threads total := by
  induction all with
  | nil => exact nil
  | cons first rest inductionHypothesis =>
    rw [List.forall_mem_cons] at same
    exact cons (first.of_sameFor same.1) (inductionHypothesis same.2)

/-- Turns of threads on their course succeed. They bring the threads forward by the
instructions and ends that they report, no thread apart from them notices, and those that
terminate hold no monitor afterwards. -/
theorem attemptRoundOf (all : AllOnCourse heap threads total)
    (distinct : (threads.map Thread.id).Nodup) (quantum : Nat) :
    ∃ report reached after left,
      Scheduler.attemptRoundOf quantum threads heap = (.ok report, (reached, after)) ∧
      reached.map Thread.id = threads.map Thread.id ∧
      (∀ other, other ∉ threads.map Thread.id → Heap.SameFor other heap after) ∧
      AllOnCourse after (reached.filter (!·.isTerminated)) left ∧
      total = left + report.executed + report.terminated.length ∧
      ∀ thread ∈ reached, thread.isTerminated → after.ClearOf thread.id := by
  induction threads generalizing heap total with
  | nil =>
    cases all
    exact ⟨_, _, _, 0, rfl, rfl, fun other _ => Heap.SameFor.refl other heap, nil, rfl, nofun⟩
  | cons thread later inductionHypothesis =>
    cases all with
    | cons first rest =>
      rename_i steps remaining
      rw [List.map_cons, List.nodup_cons] at distinct
      obtain ⟨turn, reached, between, turned, sameName, outcome⟩ := first.attempt_turn quantum
      have untouched (other : ThreadId) (apart : other ≠ thread.id) :
          Heap.SameFor other heap between := by
        have same := Thread.sameFor_turn first.wellFormed apart quantum heap
        rwa [turned] at same
      have behind : ∀ other ∈ later, Heap.SameFor other.id heap between := by
        intro other member
        refine untouched other.id fun same => distinct.1 ?_
        exact same ▸ List.mem_map_of_mem member
      obtain ⟨report, others, after, left, rested, names, unseen, ahead, rfl, clear⟩ :=
        inductionHypothesis (rest.of_sameFor behind) distinct.2
      have unmoved : Heap.SameFor thread.id between after := unseen thread.id distinct.1
      have rounded : Scheduler.attemptRoundOf quantum (thread :: later) heap =
          (.ok (Round.after reached.id turn report), (reached :: others, after)) := by
        rw [attemptRoundOf_cons, turned]
        simp only [rested]
        rfl
      have sameNames : (reached :: others).map Thread.id = (thread :: later).map Thread.id := by
        rw [List.map_cons, List.map_cons, sameName, names]
      have unnoticed : ∀ other, other ∉ (thread :: later).map Thread.id →
          Heap.SameFor other heap after := by
        intro other absent
        rw [List.map_cons, List.mem_cons, not_or] at absent
        exact (untouched other absent.1).trans (unseen other absent.2)
      obtain ⟨ended, gone, done, free⟩ | ⟨goesOn, further, rfl, onward⟩ := outcome
      -- the thread leaves the table, having released all that it held, or stays on its course
      · refine ⟨_, _, after, left, rounded, sameNames, unnoticed, ?_, ?_, ?_⟩
        · rwa [List.filter_cons_of_neg (by simp [gone])]
        · simp only [Round.after, ended, if_true, List.length_cons]
          omega
        · refine List.forall_mem_cons.mpr ⟨fun _ => ?_, clear⟩
          exact sameName ▸ unmoved.clearOf free
      · have present := onward.isTerminated_eq_false
        refine ⟨_, _, after, further + 1 + left, rounded, sameNames, unnoticed, ?_, ?_, ?_⟩
        · rw [List.filter_cons_of_pos (by simp [present])]
          exact cons (onward.of_sameFor (sameName ▸ unmoved)) ahead
        · simp only [Round.after, goesOn, if_false]
          omega
        · refine List.forall_mem_cons.mpr ⟨fun gone => ?_, clear⟩
          cases present.symm.trans gone

end AllOnCourse

/-! ### Completion -/

/-- All threads of a scheduler follow their own runs, with a number of instructions and ends
ahead of them, and nobody else holds a monitor. -/
structure Underway (scheduler : Scheduler) (total : Nat) : Prop where
  quantum_pos : 0 < scheduler.quantum
  distinct : (scheduler.threads.map Thread.id).Nodup
  onCourse : AllOnCourse scheduler.heap scheduler.threads total
  owner_mem : ∀ index owner, scheduler.heap.LockedBy index owner →
    owner ∈ scheduler.threads.map Thread.id

namespace Underway

variable {scheduler : Scheduler} {total : Nat}

theorem wellFormed (underway : scheduler.Underway total) : scheduler.WellFormed := by
  refine ⟨underway.quantum_pos, fun thread member => ?_⟩
  obtain ⟨steps, onCourse⟩ := underway.onCourse.exists_onCourse member
  exact onCourse.wellFormed

/-- A round succeeds and lowers what lies ahead by its progress. -/
theorem attempt_round (underway : scheduler.Underway total) :
    ∃ report later left, round.attempt scheduler = (.ok report, later) ∧
      total = left + report.executed + report.terminated.length ∧ later.Underway left := by
  obtain ⟨report, reached, after, left, turns, names, unseen, ahead, progress, clear⟩ :=
    underway.onCourse.attemptRoundOf underway.distinct scheduler.quantum
  refine ⟨report, { scheduler with heap := after, threads := reached.filter (!·.isTerminated) },
    left, ?_, progress, underway.quantum_pos, ?_, ahead, fun index owner locked => ?_⟩
  · rw [Scheduler.attempt_round, turns]
  · have distinct := underway.distinct
    rw [← names] at distinct
    exact distinct.sublist (List.filter_sublist.map Thread.id)
  · have member : owner ∈ reached.map Thread.id := by
      rw [names]
      refine Classical.byContradiction fun absent => absent ?_
      exact underway.owner_mem index owner (((unseen owner absent).lockedBy_iff index).mpr locked)
    obtain ⟨thread, present, rfl⟩ := List.mem_map.mp member
    refine List.mem_map_of_mem (List.mem_filter.mpr ⟨present, ?_⟩)
    cases gone : thread.isTerminated with
    | false => rfl
    | true => exact absurd locked (clear thread present gone index)

/-- If all threads were stuck, there would be one that waits for a monitor of an index as large
as one likes. -/
theorem exists_stuck_ge (underway : scheduler.Underway total)
    (inhabited : scheduler.threads ≠ []) (stalled : scheduler.Stalled) (bound : Nat) :
    ∃ thread ∈ scheduler.threads, ∃ frame reference owner, thread.current? = some frame ∧
      frame.AboutToEnter reference ∧ scheduler.heap.LockedBy reference.index.toNat owner ∧
      owner ≠ thread.id ∧ bound ≤ reference.index.toNat := by
  induction bound with
  | zero =>
    obtain ⟨thread, member⟩ := List.exists_mem_of_ne_nil _ inhabited
    obtain ⟨frame, reference, owner, current, entering, locked, other⟩ := stalled thread member
    exact ⟨thread, member, frame, reference, owner, current, entering, locked, other,
      Nat.zero_le _⟩
  | succ bound inductionHypothesis =>
    obtain ⟨thread, -, -, reference, owner, -, -, locked, -, large⟩ := inductionHypothesis
    -- the holder is itself stuck, and only behind all that it holds
    obtain ⟨holder, member, rfl⟩ := List.mem_map.mp (underway.owner_mem _ owner locked)
    obtain ⟨frame, next, nextOwner, current, entering, nextLocked, other⟩ :=
      stalled holder member
    obtain ⟨steps, onCourse⟩ := underway.onCourse.exists_onCourse member
    have larger := onCourse.index_lt current entering nextLocked other locked
    exact ⟨holder, member, frame, next, nextOwner, current, entering, nextLocked, other,
      Nat.le_trans (Nat.succ_le_succ large) larger⟩

theorem not_stalled (underway : scheduler.Underway total)
    (inhabited : scheduler.threads ≠ []) : ¬ scheduler.Stalled := by
  intro stalled
  obtain ⟨-, -, -, reference, owner, -, -, locked, -, beyond⟩ :=
    underway.exists_stuck_ge inhabited stalled scheduler.heap.size
  exact Nat.not_le_of_lt locked.lt_size beyond

theorem completes (underway : scheduler.Underway total) :
    ∃ rounds final, final.threads = [] ∧ final.heap.Unlocked ∧
      ∀ limit, rounds ≤ limit → (run limit).attempt scheduler = (.ok (some rounds), final) := by
  induction total using Nat.strongRecOn generalizing scheduler with
  | ind total inductionHypothesis =>
    by_cases inhabited : scheduler.threads = []
    · refine ⟨0, scheduler, inhabited, Heap.unlocked_of_clearOf fun thread index locked => ?_,
        fun limit _ => attempt_run_of_empty inhabited limit⟩
      have member := underway.owner_mem index thread locked
      rw [inhabited] at member
      cases member
    · obtain ⟨report, later, left, rounded, progress, still⟩ := underway.attempt_round
      have forward : report.madeProgress = true := by
        cases idle : report.madeProgress with
        | true => rfl
        | false =>
          have stalled := stalled_of_idle_round underway.wellFormed rounded idle
          exact absurd stalled (underway.not_stalled inhabited)
      have lower : left < total := by
        have moved := mt (madeProgress_eq_false_iff report).mpr (by simp [forward])
        rw [← List.length_eq_zero_iff] at moved
        omega
      obtain ⟨rounds, final, empty, unlocked, completes⟩ := inductionHypothesis left lower still
      refine ⟨rounds + 1, final, empty, unlocked, fun limit enough => ?_⟩
      obtain ⟨remaining, rfl⟩ :=
        Nat.exists_eq_add_of_le' (Nat.le_trans (Nat.le_add_left 1 rounds) enough)
      rw [attempt_run_succ inhabited, rounded]
      simp only [forward, if_true, completes remaining (Nat.le_of_succ_le_succ enough)]
      rfl

end Underway

/-- Threads that are started in a new scheduler over a heap without locked objects, and each of
which alone would lock the objects of that heap in the order of their indices and release them,
run to their ends whatever the quantum: the run fails in no round and is no deadlock, and it
leaves neither a thread nor a locked object. -/
theorem ordered_locking_completes (config : SchedulerConfig) {heap : Heap}
    (unlocked : heap.Unlocked) {starts : List (Method × List Value)}
    (few : starts.length < UInt32.size)
    (ordered : ∀ thread ∈ (spawnEach starts (createOver config heap)).threads,
      thread.LocksInOrder heap) :
    ∃ rounds final, final.threads = [] ∧ final.heap.Unlocked ∧
      ∀ limit, rounds ≤ limit →
        (run limit).attempt (spawnEach starts (createOver config heap)) =
          (.ok (some rounds), final) := by
  have new : (createOver config heap).Started 0 := ⟨Nat.le_refl 0, List.nodup_nil, nofun, nofun⟩
  have started := new.spawnEach starts (by rwa [Nat.zero_add])
  obtain ⟨sameHeap, sameQuantum⟩ := spawnEach_unchanged starts (createOver config heap)
  have each : ∀ thread ∈ (spawnEach starts (createOver config heap)).threads,
      ∃ steps, thread.OnCourse steps heap := by
    intro thread member
    obtain ⟨frame, single, inOrder⟩ := started.single thread member
    have alone := ordered thread member
    obtain ⟨id, frames⟩ := thread
    cases single
    exact Thread.OnCourse.of_locksInOrder inOrder alone
  obtain ⟨total, onCourse⟩ := AllOnCourse.of_forall each
  have underway : (spawnEach starts (createOver config heap)).Underway total := by
    refine ⟨?_, started.distinct, ?_, fun index owner locked => ?_⟩
    · rw [sameQuantum]
      exact Nat.le_max_right config.quantum 1
    · rw [sameHeap]
      exact onCourse
    · rw [sameHeap] at locked
      exact absurd locked (unlocked.clearOf owner index)
  exact underway.completes

def twoLocks : Heap :=
  ((Heap.allocate "B").attempt ((Heap.allocate "A").attempt (.empty 4)).2).2

/-- Two threads that lock the same objects in the same order, in turns of three instructions. -/
def pair : Scheduler :=
  spawnEach [(lockBoth, [.reference ⟨0⟩, .reference ⟨1⟩]),
    (lockBoth, [.reference ⟨0⟩, .reference ⟨1⟩])] (createOver { quantum := 3 } twoLocks)

theorem pair_completes :
    twoLocks.Unlocked ∧ pair.threads.map Thread.id = [⟨0⟩, ⟨1⟩] ∧
    (∀ thread ∈ pair.threads, thread.LocksInOrder twoLocks) ∧
    ∃ rounds final, final.threads = [] ∧ final.heap.Unlocked ∧
      ∀ limit, rounds ≤ limit → (run limit).attempt pair = (.ok (some rounds), final) := by
  have unlocked : twoLocks.Unlocked := by
    unfold Heap.Unlocked
    decide +kernel
  have single : ∀ thread ∈ pair.threads, thread.depth = 1 := by decide +kernel
  have orderly : ∀ thread ∈ pair.threads, ∀ frame ∈ thread.frames,
      Frame.Orderly thread.id 8 (frame, twoLocks) := by decide +kernel
  have ordered : ∀ thread ∈ pair.threads, thread.LocksInOrder twoLocks := by
    intro thread member
    obtain ⟨frame, frames⟩ := List.length_eq_one_iff.mp (single thread member)
    have course := orderly thread member frame (by rw [frames]; exact List.mem_singleton.mpr rfl)
    obtain ⟨id, stack⟩ := thread
    cases frames
    exact (Thread.locksInOrder_iff id frame twoLocks).mpr ⟨8, course⟩
  exact ⟨unlocked, by decide +kernel, ordered,
    ordered_locking_completes { quantum := 3 } unlocked (by decide) ordered⟩

end BytecodeMachine.Scheduler
