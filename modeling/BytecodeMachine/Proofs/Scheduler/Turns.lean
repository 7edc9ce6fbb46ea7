/-
This file looks into a round. A round is made up of turns, each of which the
thread at one place of the table has on the scheduler that the turns before it
left. Main statement: whatever comes of a turn, also where it fails and ends the
round, the other threads keep their frames, and every object keeps its class and
its monitor, unless the monitor was free or the thread's own, and so it is
afterwards.
-/

import BytecodeMachine.Proofs.Scheduler.Deadlock

namespace BytecodeMachine

theorem ThreadId.exists_ne (thread : ThreadId) : ∃ other, other ≠ thread := by
  by_cases first : thread = ⟨0⟩
  · exact ⟨⟨1⟩, by rw [first]; decide⟩
  · exact ⟨⟨0⟩, Ne.symm first⟩

namespace Scheduler

/-! ### A round as turns at the places of the table -/

/-- Gives the thread at a place of the table its turn. -/
def giveTurn (place : Nat) : Action Scheduler Unit := fun scheduler =>
  match scheduler.threads[place]? with
  | none => ⟨.ok (), scheduler, []⟩
  | some thread =>
    let outcome := (Thread.turn scheduler.quantum).run (thread, scheduler.heap)
    ⟨outcome.result.map fun _ => (),
      { scheduler with
        threads := scheduler.threads.set place outcome.state.1, heap := outcome.state.2 },
      outcome.events⟩

/-- Gives the threads at some places their turns, one after the other, up to the first that
fails. -/
def giveTurns : List Nat → Action Scheduler Unit
  | [] => return ()
  | place :: later => do
    giveTurn place
    giveTurns later

theorem attempt_giveTurn {scheduler : Scheduler} {place : Nat} {thread : Thread}
    (present : scheduler.threads[place]? = some thread) :
    (giveTurn place).attempt scheduler =
      let turned := (Thread.turn scheduler.quantum).attempt (thread, scheduler.heap)
      (turned.1.map fun _ => (), { scheduler with
        threads := scheduler.threads.set place turned.2.1, heap := turned.2.2 }) := by
  simp only [Action.attempt, Action.run, giveTurn, present]

theorem attempt_giveTurn_of_none {scheduler : Scheduler} {place : Nat}
    (absent : scheduler.threads[place]? = none) :
    (giveTurn place).attempt scheduler = (.ok (), scheduler) := by
  simp only [Action.attempt, Action.run, giveTurn, absent]

/-- The turns at all places behind some threads are the turns of the threads there. -/
theorem attempt_giveTurns (scheduler : Scheduler) (earlier later : List Thread) (heap : Heap) :
    (giveTurns (List.range' earlier.length later.length)).attempt
        { scheduler with threads := earlier ++ later, heap } =
      let turned := attemptRoundOf scheduler.quantum later heap
      (turned.1.map fun _ => (), { scheduler with
        threads := earlier ++ turned.2.1, heap := turned.2.2 }) := by
  -- the threads that have had their turns go over to the earlier ones
  induction later generalizing earlier heap with
  | nil => rfl
  | cons thread later inductionHypothesis =>
    have here : (earlier ++ thread :: later)[earlier.length]? = some thread := by
      rw [List.getElem?_append_right (Nat.le_refl _), Nat.sub_self, List.getElem?_cons_zero]
    have turned := @attempt_giveTurn
      { scheduler with threads := earlier ++ thread :: later, heap } _ _ here
    have put (reached : Thread) : (earlier ++ thread :: later).set earlier.length reached =
        earlier ++ reached :: later := by
      rw [List.set_append_right _ _ (Nat.le_refl _), Nat.sub_self, List.set_cons_zero]
    simp only [put] at turned
    rw [List.length_cons, List.range'_succ, giveTurns, Action.attempt_bind, turned,
      attemptRoundOf_cons]
    rcases (Thread.turn scheduler.quantum).attempt (thread, heap) with
      ⟨_ | turn, reached, after⟩
    · rfl
    · have rest := inductionHypothesis (earlier ++ [reached]) after
      simp only [List.length_append, List.length_singleton, List.append_assoc,
        List.singleton_append] at rest
      simp only [Except.map, rest]
      rcases (attemptRoundOf scheduler.quantum later after).1 with _ | report <;> rfl

/-- A round is the turns at all places of the table. After a round without a fault the threads
that have terminated leave the table. -/
theorem attempt_round_eq_giveTurns (scheduler : Scheduler) :
    let turned := (giveTurns (List.range scheduler.threads.length)).attempt scheduler
    (round.attempt scheduler).1.map (fun _ => ()) = turned.1 ∧
      (round.attempt scheduler).2 = match turned.1 with
        | .ok _ => { turned.2 with threads := turned.2.threads.filter (!·.isTerminated) }
        | .error _ => turned.2 := by
  have turned := attempt_giveTurns scheduler [] scheduler.threads scheduler.heap
  rw [List.length_nil, ← List.range_eq_range'] at turned
  simp only [List.nil_append] at turned
  simp only [turned, attempt_round]
  rcases attemptRoundOf scheduler.quantum scheduler.threads scheduler.heap with
    ⟨_ | report, threads, heap⟩ <;> exact ⟨rfl, rfl⟩

/-! ### What a turn leaves as it is -/

/-- From one scheduler to the other nothing has changed but what concerns the thread at a place:
its own frames, and monitors that it has taken or given back. -/
structure TouchesOwn (place : Nat) (thread : ThreadId) (before after : Scheduler) : Prop where
  thread_eq : ∀ other, other ≠ place → after.threads[other]? = before.threads[other]?
  size_eq : after.heap.size = before.heap.size
  classNames_eq : after.heap.classNames = before.heap.classNames
  monitorAt_eq : ∀ index owner, owner ≠ thread → before.heap.LockedBy index owner →
    after.heap.monitorAt index = before.heap.monitorAt index
  free_or_own : ∀ index, after.heap.monitorAt index ≠ before.heap.monitorAt index →
    after.heap.monitorAt index = none ∨ after.heap.LockedBy index thread

/-- A turn of a thread in order touches nothing but its own. -/
theorem touchesOwn_giveTurn {scheduler : Scheduler} {place : Nat} {thread : Thread}
    (present : scheduler.threads[place]? = some thread) (wellFormed : thread.WellFormed) :
    TouchesOwn place thread.id scheduler ((giveTurn place).attempt scheduler).2 := by
  rw [attempt_giveTurn present]
  have others (other : ThreadId) (distinct : other ≠ thread.id) :=
    Thread.sameFor_turn wellFormed distinct scheduler.quantum scheduler.heap
  obtain ⟨stranger, distinct⟩ := thread.id.exists_ne
  have strange := others stranger distinct
  constructor
  case thread_eq => exact fun other elsewhere => List.getElem?_set_ne elsewhere.symm
  case size_eq => exact strange.size_eq.symm
  case classNames_eq => exact strange.classNames_eq.symm
  -- the other two hold since whoever owns the monitor, before or afterwards, has not noticed
  case monitorAt_eq =>
    rintro index _ other ⟨monitor, locked, rfl⟩
    rw [locked]
    exact ((others _ other).monitorAt_iff index monitor rfl).mp locked
  case free_or_own =>
    intro index changed
    rcases taken : Heap.monitorAt _ index with _ | monitor
    · exact Or.inl rfl
    · refine Or.inr ⟨monitor, taken, Decidable.byContradiction fun foreign => changed ?_⟩
      exact taken.trans (((others _ foreign).monitorAt_iff index monitor rfl).mpr taken).symm

theorem keeps_giveTurn_wellFormed (place : Nat) : (giveTurn place).Keeps WellFormed := by
  intro scheduler wellFormed
  cases present : scheduler.threads[place]? with
  | none =>
    rw [attempt_giveTurn_of_none present]
    exact wellFormed
  | some thread =>
    rw [attempt_giveTurn present]
    refine ⟨wellFormed.quantum_pos, fun other member => ?_⟩
    obtain former | rfl := List.mem_or_eq_of_mem_set member
    · exact wellFormed.thread_wellFormed other former
    · exact Thread.keeps_turn_wellFormed scheduler.quantum (thread, scheduler.heap)
        (wellFormed.thread_wellFormed thread (List.mem_of_getElem? present))

theorem keeps_giveTurns {property : Scheduler → Prop} {places : List Nat}
    (kept : ∀ place ∈ places, (giveTurn place).Keeps property) :
    (giveTurns places).Keeps property := by
  induction places with
  | nil => exact Action.Keeps.pure _
  | cons place later inductionHypothesis =>
    rw [List.forall_mem_cons] at kept
    exact kept.1.bind fun _ => inductionHypothesis kept.2

/-- A thread stays as it is until it has its turn. -/
theorem keeps_thread_giveTurns {places : List Nat} {place : Nat} (later : place ∉ places)
    (thread : Option Thread) :
    (giveTurns places).Keeps fun scheduler => scheduler.threads[place]? = thread := by
  refine keeps_giveTurns fun other member scheduler here => ?_
  cases present : scheduler.threads[other]? with
  | none =>
    rw [attempt_giveTurn_of_none present]
    exact here
  | some running =>
    rw [attempt_giveTurn present]
    have elsewhere : other ≠ place := fun same => later (same ▸ member)
    exact (List.getElem?_set_ne elsewhere).trans here

/-- A round of a reachable scheduler is the turns at all places of its table. Each of them that
begins finds its thread as it was before the round and touches nothing but that thread's own,
however it ends. -/
theorem turn_touches_own {scheduler : Scheduler} (reachable : scheduler.Reachable) :
    (let turned := (giveTurns (List.range scheduler.threads.length)).attempt scheduler
     (round.attempt scheduler).1.map (fun _ => ()) = turned.1 ∧
      (round.attempt scheduler).2 = match turned.1 with
        | .ok _ => { turned.2 with threads := turned.2.threads.filter (!·.isTerminated) }
        | .error _ => turned.2) ∧
    ∀ place thread begun, scheduler.threads[place]? = some thread →
      (giveTurns (List.range place)).attempt scheduler = (.ok (), begun) →
        begun.threads[place]? = some thread ∧
        TouchesOwn place thread.id begun ((giveTurn place).attempt begun).2 := by
  refine ⟨attempt_round_eq_giveTurns scheduler, fun place thread begun present earlier => ?_⟩
  have inOrder : (giveTurns (List.range place)).Keeps WellFormed :=
    keeps_giveTurns fun other _ => keeps_giveTurn_wellFormed other
  have wellFormed := inOrder scheduler reachable.wellFormed
  have still := keeps_thread_giveTurns List.not_mem_range_self (some thread) scheduler present
  rw [earlier] at wellFormed still
  exact ⟨still, touchesOwn_giveTurn still
    (wellFormed.thread_wellFormed thread (List.mem_of_getElem? still))⟩

/-- The turn of a thread that wants a locked object leaves the lock to its holder. -/
theorem turn_touches_own_crossing :
    crossing.Reachable ∧ ∃ thread begun, crossing.threads[1]? = some thread ∧ thread.id = ⟨1⟩ ∧
      (giveTurns (List.range 1)).attempt crossing = (.ok (), begun) ∧
      begun.heap.monitorAt 0 = some ⟨⟨0⟩, 1⟩ ∧
      ((giveTurn 1).attempt begun).2.heap.monitorAt 0 = some ⟨⟨0⟩, 1⟩ := by
  have reachable : crossing.Reachable :=
    ((((((Reachable.create _).onHeap _).onHeap _).spawn _ _).spawn _ _).round).round
  obtain ⟨thread, present, second⟩ := Option.map_eq_some_iff.mp
    (show crossing.threads[1]?.map Thread.id = some ⟨1⟩ by decide +kernel)
  have earlier : (giveTurns (List.range 1)).attempt crossing =
      (.ok (), ((giveTurns (List.range 1)).attempt crossing).2) :=
    Prod.ext rfl rfl
  have locked : ((giveTurns (List.range 1)).attempt crossing).2.heap.monitorAt 0 =
      some ⟨⟨0⟩, 1⟩ := by decide +kernel
  have touches := ((turn_touches_own reachable).2 1 thread _ present earlier).2
  refine ⟨reachable, thread, _, present, second, earlier, locked, ?_⟩
  have other : (⟨0⟩ : ThreadId) ≠ thread.id := by rw [second]; decide
  exact (touches.monitorAt_eq 0 ⟨0⟩ other ⟨_, locked, rfl⟩).trans locked

end Scheduler

end BytecodeMachine
