/-
This file follows a thread that has a heap to itself. A turn comes to the same
on all heaps that agree on the objects to which the arguments of the thread
refer, and it leaves all other objects as they are. Where nobody else has locked
an object, the thread never waits.
-/

import BytecodeMachine.Proofs.Frame.Locality
import BytecodeMachine.Proofs.Thread.Start

namespace BytecodeMachine

/-- An argument of the thread refers to the object at an index. -/
def Start.RefersTo (start : Start) (index : Nat) : Prop :=
  ∃ reference, .reference reference ∈ start.arguments ∧ reference.index.toNat = index

/-! ### Stretches -/

namespace Frame

variable {start : Start}

theorem ConfinedTo.refersTo_of_top {frame : Frame}
    (confined : frame.ConfinedTo start.method.code start.allowance) {reference : ObjectRef}
    (top : frame.stack.values.head? = some (.reference reference)) :
    start.RefersTo reference.index.toNat := by
  have provided := confined.stack_only _ (List.mem_of_head? top)
  exact ⟨reference, Start.mem_arguments_of_provides provided nofun, rfl⟩

/-- A stretch comes to the same on heaps that agree on what the thread refers to. -/
theorem runFor_alike {frame : Frame} {left right : Heap}
    (holds : frame.WellFormed start.id ∧ frame.ConfinedTo start.method.code start.allowance)
    (agree : Heap.AgreeOn start.RefersTo left right) (quantum : Nat) :
    Heap.Alike start.RefersTo ((runFor quantum).attempt (frame, left))
      ((runFor quantum).attempt (frame, right)) := by
  induction quantum generalizing frame left right with
  | zero =>
    rw [attempt_runFor_zero, attempt_runFor_zero]
    exact ⟨rfl, rfl, agree⟩
  | succ quantum inductionHypothesis =>
    have kept := (invariant_confinedTo start.id start.method.code start.allowance).keeps_step_frame
      (frame, left) holds
    have stepped := step_alike (fun _ top => holds.2.refersTo_of_top top) agree
    obtain ⟨answer, next, leftAfter, rightAfter, first, second, still⟩ := stepped.exists_eq
    rw [first] at kept
    rw [attempt_runFor_succ, attempt_runFor_succ, first, second]
    match answer with
    | .ok .proceed =>
      have rest := inductionHypothesis kept still
      exact ⟨congrArg (Except.map _) rest.answer_eq, rest.state_eq, rest.agree⟩
    | .ok .yield => exact ⟨rfl, rfl, still⟩
    | .ok .endOfCode => exact ⟨rfl, rfl, still⟩
    | .error _ => exact ⟨rfl, rfl, still⟩

/-- A stretch that ends before a monitor has come to the monitor of another thread. -/
theorem exists_blocked_of_runFor {property : Frame × Heap → Prop} (kept : step.Keeps property)
    {quantum executed : Nat} {state later : Frame × Heap} (holds : property state)
    (stopped : (runFor quantum).attempt state = (.ok ⟨executed, .blocked⟩, later)) :
    ∃ reached, property reached ∧ reached.1.Blocked reached.2 := by
  obtain ⟨reached, still, yields⟩ := exists_last_step kept holds stopped rfl
  exact ⟨reached, still, blocked_of_yield yields⟩

end Frame

/-! ### Turns -/

namespace Thread

variable {start : Start} {thread : Thread}

/-- A turn comes to the same on heaps that agree on what the thread refers to. -/
theorem turn_alike (stems : thread.StemsFrom start) {left right : Heap}
    (agree : Heap.AgreeOn start.RefersTo left right) (quantum : Nat) :
    Heap.Alike start.RefersTo ((turn quantum).attempt (thread, left))
      ((turn quantum).attempt (thread, right)) := by
  obtain rfl | ⟨frame, rfl, holds⟩ := stems.frames_eq
  · exact ⟨rfl, rfl, agree⟩
  · have stretch := Frame.runFor_alike holds agree quantum
    obtain ⟨answer, next, leftAfter, rightAfter, first, second, still⟩ := stretch.exists_eq
    rw [attempt_turn_of_single, attempt_turn_of_single, first, second]
    match answer with
    | .ok ⟨_, .quantumSpent⟩ => exact ⟨rfl, rfl, still⟩
    | .ok ⟨_, .blocked⟩ => exact ⟨rfl, rfl, still⟩
    | .ok ⟨_, .endOfCode⟩ => exact ⟨rfl, rfl, still⟩
    | .error _ => exact ⟨rfl, rfl, still⟩

/-- A turn leaves all objects as they are to which the thread does not refer. -/
theorem agreeOn_turn (stems : thread.StemsFrom start) {others : Nat → Prop}
    (apart : ∀ index, others index → ¬ start.RefersTo index) (quantum : Nat) (heap : Heap) :
    Heap.AgreeOn others heap ((turn quantum).attempt (thread, heap)).2.2 := by
  have outside (reference : ObjectRef) (member : .reference reference ∈ start.arguments) :
      ¬ others reference.index.toNat :=
    fun other => apart _ other ⟨reference, member, rfl⟩
  have kept := @keeps_turn_stemsFrom start (Heap.AgreeOn others heap)
    (fun reference member => Heap.keeps_agreeOn_enter start.id (outside reference member) heap)
    (fun reference member => Heap.keeps_agreeOn_exit start.id (outside reference member) heap)
    quantum (thread, heap)
  exact (kept ⟨stems, Heap.AgreeOn.refl others heap⟩).2

/-- Nothing but monitors is ever changed by a turn. -/
theorem withoutMonitors_turn (wellFormed : thread.WellFormed) (quantum : Nat) (heap : Heap) :
    ((turn quantum).attempt (thread, heap)).2.2.withoutMonitors = heap.withoutMonitors := by
  have entering (reference : ObjectRef) : (Heap.enter reference thread.id).Keeps
      fun next => next.withoutMonitors = heap.withoutMonitors :=
    fun next same => ((Heap.local_enter reference thread.id).withoutMonitors_eq next).trans same
  have leaving (reference : ObjectRef) : (Heap.exit reference thread.id).Keeps
      fun next => next.withoutMonitors = heap.withoutMonitors :=
    fun next same => ((Heap.local_exit reference thread.id).withoutMonitors_eq next).trans same
  have kept := keeps_turn thread.id (Frame.keeps_step entering leaving) quantum (thread, heap)
  exact (kept ⟨⟨rfl, wellFormed.depth_le, wellFormed.frame_wellFormed⟩, rfl⟩).2

theorem attempt_turn_of_terminated (gone : thread.isTerminated) (quantum : Nat) (heap : Heap) :
    (turn quantum).attempt (thread, heap) = (.ok ⟨0, .terminated⟩, (thread, heap)) := by
  obtain ⟨id, frames⟩ := thread
  cases List.isEmpty_iff.mp gone
  rfl

/-- A thread has no frame left after a turn exactly when the turn ended it. -/
theorem isTerminated_turn_iff (wellFormed : thread.WellFormed) (quantum : Nat) (heap : Heap) :
    ((turn quantum).attempt (thread, heap)).2.1.isTerminated ↔
      ∃ executed, ((turn quantum).attempt (thread, heap)).1 = .ok ⟨executed, .terminated⟩ := by
  obtain ⟨id, frames⟩ := thread
  obtain none | ⟨frame, single, -⟩ := wellFormed.frames_eq
  · cases none
    exact ⟨fun _ => ⟨0, rfl⟩, fun _ => rfl⟩
  · cases single
    rw [attempt_turn_of_single]
    rcases (Frame.runFor quantum).attempt (frame, heap) with
      ⟨_ | ⟨executed, _ | _ | _⟩, next, after⟩ <;> simp [isTerminated]

/-- Where no object is locked by another thread, a turn does not end in waiting. -/
theorem state_ne_waitingForMonitor (wellFormed : thread.WellFormed) {heap : Heap}
    (clear : ∀ other, other ≠ thread.id → heap.ClearOf other) {quantum : Nat} {turn : Turn}
    (turned : ((Thread.turn quantum).attempt (thread, heap)).1 = .ok turn) :
    turn.state ≠ .waitingForMonitor := by
  intro waits
  obtain ⟨id, frames⟩ := thread
  obtain none | ⟨frame, single, inOrder⟩ := wellFormed.frames_eq
  · cases none
    cases turned
    cases waits
  · cases single
    rw [attempt_turn_of_single] at turned
    rcases stretch : (Frame.runFor quantum).attempt (frame, heap) with
      ⟨_ | ⟨executed, _ | _ | _⟩, next, after⟩ <;> rw [stretch] at turned <;> cases turned <;>
      cases waits
    have entering (reference : ObjectRef) : (Heap.enter reference id).Keeps fun heap =>
        ∀ other, other ≠ id → heap.ClearOf other :=
      fun heap clear other distinct =>
        (Heap.sameFor_enter distinct heap reference).clearOf (clear other distinct)
    have leaving (reference : ObjectRef) : (Heap.exit reference id).Keeps fun heap =>
        ∀ other, other ≠ id → heap.ClearOf other :=
      fun heap clear other distinct =>
        (Heap.sameFor_exit distinct heap reference).clearOf (clear other distinct)
    obtain ⟨⟨halted, there⟩, ⟨fine, stillClear⟩, reference, owner, -, locked, other⟩ :=
      Frame.exists_blocked_of_runFor (Frame.keeps_step entering leaving) ⟨inOrder, clear⟩ stretch
    exact stillClear owner (fine.thread_eq ▸ other) _ locked

end Thread

/-! ### Turns one after the other -/

namespace Start

/-- The thread and the heap after a number of turns in which nobody else has touched the heap. -/
def alone (start : Start) (quantum : Nat) (heap : Heap) : Nat → Thread × Heap
  | 0 => (start.thread, heap)
  | count + 1 => ((Thread.turn quantum).attempt (start.alone quantum heap count)).2

/-- What the turn amounts to that follows a number of turns of the thread alone. -/
def turnAlone (start : Start) (quantum : Nat) (heap : Heap) (count : Nat) : Except Fault Turn :=
  ((Thread.turn quantum).attempt (start.alone quantum heap count)).1

variable (start : Start) (quantum : Nat) (heap : Heap)

theorem stemsFrom_alone (count : Nat) : (start.alone quantum heap count).1.StemsFrom start := by
  induction count with
  | zero => exact start.stemsFrom_thread
  | succ count inductionHypothesis =>
    exact Thread.keeps_turn_stemsFrom_alone quantum _ inductionHypothesis

/-- On a heap that agrees with its own copy on what the thread refers to, a turn comes to the same
as the next turn alone. It leaves the heap in agreement and all other objects as they are. -/
theorem exists_turn_beside {shared : Heap} {count : Nat}
    (asAlone : Heap.AgreeOn start.RefersTo shared (start.alone quantum heap count).2) :
    ∃ between, (Thread.turn quantum).attempt ((start.alone quantum heap count).1, shared) =
        (start.turnAlone quantum heap count,
          ((start.alone quantum heap (count + 1)).1, between)) ∧
      Heap.AgreeOn (fun index => ¬ start.RefersTo index) shared between ∧
      Heap.AgreeOn start.RefersTo between (start.alone quantum heap (count + 1)).2 := by
  have stems := start.stemsFrom_alone quantum heap count
  have alike := Thread.turn_alike stems asAlone quantum
  refine ⟨((Thread.turn quantum).attempt ((start.alone quantum heap count).1, shared)).2.2,
    ?_, Thread.agreeOn_turn stems (fun _ outside => outside) quantum shared, alike.agree⟩
  exact Prod.ext alike.answer_eq (Prod.ext alike.state_eq rfl)

/-- The thread has terminated after a number of turns when one of them ended it. -/
theorem isTerminated_alone_iff (alive : start.thread.isTerminated = false) (count : Nat) :
    (start.alone quantum heap count).1.isTerminated ↔
      ∃ earlier < count, ∃ executed,
        start.turnAlone quantum heap earlier = .ok ⟨executed, .terminated⟩ := by
  induction count with
  | zero => simp [alone, alive]
  | succ count inductionHypothesis =>
    have last := Thread.isTerminated_turn_iff (start.stemsFrom_alone quantum heap count).wellFormed
      quantum (start.alone quantum heap count).2
    refine ⟨fun gone => ⟨count, Nat.lt_succ_self count, last.mp gone⟩, ?_⟩
    rintro ⟨earlier, before, executed, ended⟩
    obtain sooner | rfl := Nat.lt_succ_iff_lt_or_eq.mp before
    · have gone := inductionHypothesis.mpr ⟨earlier, sooner, executed, ended⟩
      rw [alone, Thread.attempt_turn_of_terminated gone]
      exact gone
    · exact last.mpr ⟨executed, ended⟩

theorem clearOf_alone {heap : Heap} (unlocked : heap.Unlocked) {other : ThreadId}
    (distinct : other ≠ start.id) (count : Nat) :
    (start.alone quantum heap count).2.ClearOf other := by
  induction count with
  | zero => exact unlocked.clearOf other
  | succ count inductionHypothesis =>
    have stems := start.stemsFrom_alone quantum heap count
    have same := Thread.sameFor_turn stems.wellFormed (stems.id_eq ▸ distinct) quantum
      (start.alone quantum heap count).2
    exact same.clearOf inductionHypothesis

/-- Without locked objects a thread alone never waits. -/
theorem turnAlone_ne_waitingForMonitor {heap : Heap} (unlocked : heap.Unlocked) {count : Nat}
    {turn : Turn} (turned : start.turnAlone quantum heap count = .ok turn) :
    turn.state ≠ .waitingForMonitor := by
  have stems := start.stemsFrom_alone quantum heap count
  refine Thread.state_ne_waitingForMonitor stems.wellFormed (fun other distinct => ?_) turned
  exact start.clearOf_alone quantum unlocked (stems.id_eq ▸ distinct) count

end Start

end BytecodeMachine
