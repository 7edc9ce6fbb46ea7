/-
This file describes rounds and runs of a scheduler by the turns of its threads.
A round is the turns of the threads one after the other, each on the heap that
the one before left; a run is a round and then the run that follows it. What
every turn keeps is therefore kept by rounds and by runs.
-/

import BytecodeMachine.Proofs.Thread.Turn
import BytecodeMachine.Scheduler

namespace BytecodeMachine.Scheduler

/-! ### Turns one after the other -/

/-- What comes of giving threads one turn each, without the events. -/
def attemptRoundOf (quantum : Nat) (threads : List Thread) (heap : Heap) :
    Except Fault Round × List Thread × Heap :=
  ((roundOf quantum threads heap).result, (roundOf quantum threads heap).state)

theorem attemptRoundOf_cons (quantum : Nat) (thread : Thread) (later : List Thread)
    (heap : Heap) :
    attemptRoundOf quantum (thread :: later) heap =
      match (Thread.turn quantum).attempt (thread, heap) with
      | (.ok turn, (reached, after)) =>
        let rest := attemptRoundOf quantum later after
        (rest.1.map (Round.after reached.id turn), (reached :: rest.2.1, rest.2.2))
      | (.error fault, (reached, after)) => (.error fault, (reached :: later, after)) := by
  unfold attemptRoundOf Action.attempt
  rw [roundOf]
  rcases (Thread.turn quantum).run (thread, heap) with ⟨_ | turn, ⟨reached, after⟩, events⟩ <;> rfl

/-- Turns of all threads succeed only when the turn of the first thread and those of the others
do. -/
theorem attemptRoundOf_cons_eq_ok {quantum : Nat} {thread : Thread} {later threads : List Thread}
    {heap last : Heap} {report : Round}
    (success : attemptRoundOf quantum (thread :: later) heap = (.ok report, (threads, last))) :
    ∃ turn reached after others rest,
      (Thread.turn quantum).attempt (thread, heap) = (.ok turn, (reached, after)) ∧
      attemptRoundOf quantum later after = (.ok others, (rest, last)) ∧
      report = Round.after reached.id turn others ∧ threads = reached :: rest := by
  rw [attemptRoundOf_cons] at success
  rcases turned : (Thread.turn quantum).attempt (thread, heap) with ⟨_ | turn, reached, after⟩ <;>
    simp only [turned] at success
  · cases success
  · rcases rested : attemptRoundOf quantum later after with ⟨_ | others, rest, final⟩ <;>
      rw [rested] at success <;> cases success
    exact ⟨turn, reached, after, others, rest, rfl, rested, rfl, rfl⟩

/-- What a turn keeps of each thread is kept by the turns of all. -/
theorem keeps_roundOf {property : Thread → Prop} {quantum : Nat}
    (kept : (Thread.turn quantum).Keeps fun state => property state.1)
    (threads : List Thread) (heap : Heap) (holds : ∀ thread ∈ threads, property thread) :
    ∀ thread ∈ (attemptRoundOf quantum threads heap).2.1, property thread := by
  induction threads generalizing heap with
  | nil => exact holds
  | cons thread later inductionHypothesis =>
    rw [List.forall_mem_cons] at holds
    have turned := kept (thread, heap) holds.1
    rw [attemptRoundOf_cons]
    rcases outcome : (Thread.turn quantum).attempt (thread, heap) with
      ⟨_ | turn, reached, after⟩ <;> rw [outcome] at turned <;>
      refine List.forall_mem_cons.mpr ⟨turned, ?_⟩
    · exact holds.2
    · exact inductionHypothesis after holds.2

/-- The threads keep their names in their turns. -/
theorem ids_attemptRoundOf (quantum : Nat) (threads : List Thread) (heap : Heap) :
    (attemptRoundOf quantum threads heap).2.1.map Thread.id = threads.map Thread.id := by
  induction threads generalizing heap with
  | nil => rfl
  | cons thread later inductionHypothesis =>
    have sameName : ((Thread.turn quantum).attempt (thread, heap)).2.1.id = thread.id := rfl
    rw [attemptRoundOf_cons]
    rcases turned : (Thread.turn quantum).attempt (thread, heap) with
      ⟨_ | turn, reached, after⟩ <;> rw [turned] at sameName
    · exact List.cons_eq_cons.mpr ⟨sameName, rfl⟩
    · exact List.cons_eq_cons.mpr ⟨sameName, inductionHypothesis after⟩

/-- The threads reported as ended are those without frames after their turns. -/
theorem terminated_of_attemptRoundOf {quantum : Nat} {threads reached : List Thread}
    {heap last : Heap} {report : Round}
    (success : attemptRoundOf quantum threads heap = (.ok report, (reached, last))) :
    report.terminated = (reached.filter Thread.isTerminated).map Thread.id := by
  induction threads generalizing heap reached report with
  | nil =>
    cases success
    rfl
  | cons thread later inductionHypothesis =>
    obtain ⟨turn, first, after, others, rest, turned, rested, rfl, rfl⟩ :=
      attemptRoundOf_cons_eq_ok success
    have ended := Thread.state_eq_terminated_iff turned
    rw [Round.after, inductionHypothesis rested]
    cases gone : first.isTerminated <;> simp [ended, gone]

/-- The threads reported as waiting are among those that still have frames, in the same order. -/
theorem waiting_of_attemptRoundOf {quantum : Nat} {threads reached : List Thread}
    {heap last : Heap} {report : Round}
    (success : attemptRoundOf quantum threads heap = (.ok report, (reached, last))) :
    report.waiting.Sublist ((reached.filter (!·.isTerminated)).map Thread.id) := by
  induction threads generalizing heap reached report with
  | nil =>
    cases success
    exact List.Sublist.refl []
  | cons thread later inductionHypothesis =>
    obtain ⟨turn, first, after, others, rest, turned, rested, rfl, rfl⟩ :=
      attemptRoundOf_cons_eq_ok success
    have ended := Thread.state_eq_terminated_iff turned
    have remain := inductionHypothesis rested
    have reported : (Round.after first.id turn others).waiting =
        if turn.state = .waitingForMonitor then first.id :: others.waiting else others.waiting :=
      rfl
    rw [reported]
    cases gone : first.isTerminated with
    | true => simpa [ended.mpr gone, gone] using remain
    | false =>
      rw [List.filter_cons_of_pos (by simp [gone]), List.map_cons]
      split
      · exact remain.cons_cons first.id
      · exact remain.cons first.id

/-- Turns complete no more instructions than the quantum allows each thread. -/
theorem executed_le_of_attemptRoundOf {quantum : Nat} {threads reached : List Thread}
    {heap last : Heap} {report : Round}
    (success : attemptRoundOf quantum threads heap = (.ok report, (reached, last))) :
    report.executed ≤ quantum * threads.length := by
  induction threads generalizing heap reached report with
  | nil =>
    cases success
    exact Nat.le_refl 0
  | cons thread later inductionHypothesis =>
    obtain ⟨turn, first, after, others, rest, turned, rested, rfl, rfl⟩ :=
      attemptRoundOf_cons_eq_ok success
    rw [List.length_cons, Nat.mul_succ, Nat.add_comm]
    exact Nat.add_le_add (Thread.executed_le turned) (inductionHypothesis rested)

/-- What the turn of each thread keeps of the heap is kept by the turns of all. -/
theorem keeps_heap_attemptRoundOf {property : Heap → Prop} {quantum : Nat} {threads : List Thread}
    (kept : ∀ thread ∈ threads, ∀ heap, property heap →
      property ((Thread.turn quantum).attempt (thread, heap)).2.2)
    {heap : Heap} (holds : property heap) :
    property (attemptRoundOf quantum threads heap).2.2 := by
  induction threads generalizing heap with
  | nil => exact holds
  | cons thread later inductionHypothesis =>
    rw [List.forall_mem_cons] at kept
    have first := kept.1 heap holds
    rw [attemptRoundOf_cons]
    rcases turned : (Thread.turn quantum).attempt (thread, heap) with
      ⟨_ | turn, reached, after⟩ <;> rw [turned] at first
    · exact first
    · exact inductionHypothesis kept.2 first

/-- The turns of other threads leave the heap the same for a thread. -/
theorem sameFor_attemptRoundOf {threads : List Thread}
    (wellFormed : ∀ thread ∈ threads, thread.WellFormed) {other : ThreadId}
    (absent : other ∉ threads.map Thread.id) (quantum : Nat) (heap : Heap) :
    Heap.SameFor other heap (attemptRoundOf quantum threads heap).2.2 := by
  refine keeps_heap_attemptRoundOf (fun thread member next same => ?_)
    (Heap.SameFor.refl other heap)
  have distinct : other ≠ thread.id := fun named => absent (named ▸ List.mem_map_of_mem member)
  exact same.trans (Thread.sameFor_turn (wellFormed thread member) distinct quantum next)

/-! ### Rounds -/

theorem attempt_round (scheduler : Scheduler) :
    round.attempt scheduler =
      match attemptRoundOf scheduler.quantum scheduler.threads scheduler.heap with
      | (.ok report, (threads, heap)) =>
        (.ok report, { scheduler with heap, threads := threads.filter (!·.isTerminated) })
      | (.error fault, (threads, heap)) => (.error fault, { scheduler with heap, threads }) := by
  simp only [Action.attempt, Action.run, round, attemptRoundOf]
  rcases roundOf scheduler.quantum scheduler.threads scheduler.heap with
    ⟨_ | report, ⟨threads, heap⟩, events⟩ <;> rfl

/-- A round that succeeds is the turns of all threads, and those that have ended leave the table. -/
theorem round_eq_ok {scheduler later : Scheduler} {report : Round}
    (success : round.attempt scheduler = (.ok report, later)) :
    ∃ threads heap,
      attemptRoundOf scheduler.quantum scheduler.threads scheduler.heap =
        (.ok report, (threads, heap)) ∧
      later = { scheduler with heap, threads := threads.filter (!·.isTerminated) } := by
  rw [attempt_round] at success
  rcases turns : attemptRoundOf scheduler.quantum scheduler.threads scheduler.heap with
    ⟨_ | other, threads, heap⟩ <;> rw [turns] at success <;> cases success
  exact ⟨threads, heap, rfl, rfl⟩

theorem mem_threads_round {scheduler : Scheduler} {thread : Thread}
    (member : thread ∈ (round.attempt scheduler).2.threads) :
    thread ∈ (attemptRoundOf scheduler.quantum scheduler.threads scheduler.heap).2.1 := by
  rw [attempt_round] at member
  rcases turns : attemptRoundOf scheduler.quantum scheduler.threads scheduler.heap with
    ⟨_ | report, threads, heap⟩ <;> rw [turns] at member
  · exact member
  · exact (List.mem_filter.mp member).1

/-! ### Runs -/

theorem attempt_run_of_empty {scheduler : Scheduler} (empty : scheduler.threads = [])
    (limit : Nat) : (run limit).attempt scheduler = (.ok (some 0), scheduler) := by
  cases limit with
  | zero =>
    rw [run_zero, Action.attempt_bind_of_ok _ (Action.attempt_get _), empty]
    rfl
  | succ limit =>
    rw [run_succ, Action.attempt_bind_of_ok _ (Action.attempt_get _), empty]
    rfl

/-- With threads in the table and rounds left a run begins with a round. -/
theorem attempt_run_succ {scheduler : Scheduler} (inhabited : scheduler.threads ≠ [])
    (limit : Nat) :
    (run (limit + 1)).attempt scheduler =
      match round.attempt scheduler with
      | (.ok report, reached) =>
        if report.madeProgress then
          (((run limit).attempt reached).1.map (Option.map (· + 1)),
            ((run limit).attempt reached).2)
        else (.error (.deadlock (reached.threads.map Thread.id)), reached)
      | (.error fault, reached) => (.error fault, reached) := by
  have present : scheduler.threads.isEmpty = false := by
    rwa [List.isEmpty_eq_false_iff]
  rw [run_succ, Action.attempt_bind_of_ok _ (Action.attempt_get _)]
  simp only [present, Bool.false_eq_true, if_false]
  rw [Action.attempt_bind]
  rcases round.attempt scheduler with ⟨_ | report, reached⟩
  · rfl
  · by_cases progress : report.madeProgress
    · simp only [progress, if_true]
      rw [Action.attempt_bind]
      rcases (run limit).attempt reached with ⟨_ | rounds, last⟩ <;> rfl
    · simp only [progress, Bool.false_eq_true, if_false]
      rfl

/-- What rounds keep is kept by a run, however many rounds it may have. -/
theorem keeps_run {property : Scheduler → Prop} (kept : round.Keeps property) (limit : Nat) :
    (run limit).Keeps property := by
  induction limit with
  | zero =>
    rw [run_zero]
    exact Action.Keeps.bind Action.Keeps.get fun _ => Action.Keeps.pure _
  | succ limit inductionHypothesis =>
    rw [run_succ]
    refine Action.Keeps.bind Action.Keeps.get fun scheduler => ?_
    split
    · exact Action.Keeps.pure _
    · refine Action.Keeps.bind kept fun report => ?_
      split
      · exact Action.Keeps.bind inductionHypothesis fun _ => Action.Keeps.pure _
      · refine Action.Keeps.bind Action.Keeps.get fun _ => ?_
        exact Action.Keeps.bind (Action.Keeps.report _) fun _ => Action.Keeps.fail _

end BytecodeMachine.Scheduler
