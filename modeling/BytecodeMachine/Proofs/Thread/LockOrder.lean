/-
This file is about threads that lock objects in the order of their indices. Such
a thread is known from a run of its own, without other threads: it comes to its
end, on the way it enters only monitors of objects behind all those that it
holds, and in the end it holds none.

What a thread does beside others is what it does alone. The heap it meets is
the same for it as the one of its own run, so every step that is not kept up by
the monitor of another thread is a step of that run, and one that is kept up
changes nothing. Main statement: a turn brings the thread forward on its own
run by the instructions that the turn completes, and it fails under no
circumstances.
-/

import BytecodeMachine.Proofs.Thread.Turn

namespace BytecodeMachine

namespace Frame

/-! ### Runs of a single frame -/

/-- The states that a frame and its heap come to by steps that go on. -/
inductive Reaches : Frame × Heap → Frame × Heap → Prop
  | refl (state : Frame × Heap) : Reaches state state
  | step {first next last : Frame × Heap}
      (proceeds : step.attempt first = (.ok .proceed, next)) (later : Reaches next last) :
      Reaches first last

/-- If a thread is about to enter a monitor that it does not hold, it holds only monitors of
objects with smaller indices. -/
def EntersInOrder (thread : ThreadId) (state : Frame × Heap) : Prop :=
  ∀ reference, state.1.AboutToEnter reference →
    ¬ state.2.LockedBy reference.index.toNat thread →
      ∀ index, state.2.LockedBy index thread → index < reference.index.toNat

/-- A frame comes to the end of its code with a number of steps. Before each of them its thread
enters in order, and in the end the thread holds nothing. -/
def Orderly (thread : ThreadId) : Nat → Frame × Heap → Prop
  | 0, state => state.1.isExhausted ∧ state.2.ClearOf thread
  | steps + 1, state => EntersInOrder thread state ∧
    ∃ next, step.attempt state = (.ok .proceed, next) ∧ Orderly thread steps next

instance (thread : ThreadId) (state : Frame × Heap) : Decidable (EntersInOrder thread state) :=
  decidable_of_iff (∀ reference ∈ state.1.awaited?,
      ¬ state.2.LockedBy reference.index.toNat thread →
        ∀ index < state.2.size, state.2.LockedBy index thread → index < reference.index.toNat) (by
    constructor
    · intro ordered reference entering unheld index locked
      have awaited := (awaited?_eq_some_iff state.1 reference).mpr entering
      exact ordered reference awaited unheld index locked.lt_size locked
    · intro ordered reference awaited unheld index _ locked
      exact ordered reference ((awaited?_eq_some_iff state.1 reference).mp awaited) unheld index
        locked)

instance decidableOrderly (thread : ThreadId) :
    (steps : Nat) → (state : Frame × Heap) → Decidable (Orderly thread steps state)
  | 0, state => inferInstanceAs (Decidable (state.1.isExhausted ∧ state.2.ClearOf thread))
  | steps + 1, state =>
    have onward : Decidable (∃ next, step.attempt state = (.ok .proceed, next) ∧
        Orderly thread steps next) :=
      match outcome : step.attempt state with
      | (.ok .proceed, next) =>
        have := decidableOrderly thread steps next
        decidable_of_iff (Orderly thread steps next) (by simp)
      | (.ok .yield, _) | (.ok .endOfCode, _) | (.error _, _) => .isFalse (by simp)
    inferInstanceAs (Decidable (EntersInOrder thread state ∧ _))

namespace Orderly

variable {thread : ThreadId} {steps : Nat} {frame : Frame} {heap : Heap}

theorem isExhausted_eq_false (orderly : Orderly thread (steps + 1) (frame, heap)) :
    frame.isExhausted = false := by
  obtain ⟨-, next, proceeds, -⟩ := orderly
  cases more : frame.isExhausted with
  | false => rfl
  | true => cases (attempt_step_of_exhausted more heap).symm.trans proceeds

/-- The offset that the frame remembers has no part in what lies ahead. -/
theorem rewound (orderly : Orderly thread steps (frame, heap)) :
    Orderly thread steps (frame.rewound, heap) := by
  cases steps with
  | zero => exact orderly
  | succ steps =>
    have more := orderly.isExhausted_eq_false
    obtain ⟨ordered, next, proceeds, later⟩ := orderly
    exact ⟨ordered, next, (attempt_step_rewound more heap).trans proceeds, later⟩

theorem entersInOrder (orderly : Orderly thread steps (frame, heap)) :
    EntersInOrder thread (frame, heap) := by
  cases steps with
  | zero =>
    intro reference entering _ index locked
    exact absurd locked (orderly.2 index)
  | succ steps => exact orderly.1

/-- Every state of an orderly run is in order. -/
theorem of_reaches {state last : Frame × Heap} (reached : Reaches state last)
    (orderly : Orderly thread steps state) : EntersInOrder thread last := by
  induction reached generalizing steps with
  | refl state => exact orderly.entersInOrder
  | step proceeds later inductionHypothesis =>
    cases steps with
    | zero => cases (attempt_step_of_exhausted orderly.1 _).symm.trans proceeds
    | succ steps =>
      obtain ⟨-, next, again, onward⟩ := orderly
      cases proceeds.symm.trans again
      exact inductionHypothesis onward

theorem attempt_runFor {state : Frame × Heap} (orderly : Orderly thread steps state) :
    ∃ last, (runFor (steps + 1)).attempt state = (.ok ⟨steps, .endOfCode⟩, last) ∧
      last.2.ClearOf thread := by
  induction steps generalizing state with
  | zero =>
    refine ⟨state, ?_, orderly.2⟩
    rw [attempt_runFor_succ, attempt_step_of_exhausted orderly.1]
  | succ steps inductionHypothesis =>
    obtain ⟨-, next, proceeds, onward⟩ := orderly
    obtain ⟨last, ended, clear⟩ := inductionHypothesis onward
    refine ⟨last, ?_, clear⟩
    rw [attempt_runFor_succ, proceeds]
    simp only [ended]
    rfl

/-- A run that comes to the end is orderly if all of its states are in order. -/
theorem of_runFor {quantum : Nat} {state last : Frame × Heap}
    (ended : (runFor quantum).attempt state = (.ok ⟨steps, .endOfCode⟩, last))
    (clear : last.2.ClearOf thread)
    (ordered : ∀ between, Reaches state between → EntersInOrder thread between) :
    Orderly thread steps state := by
  induction quantum generalizing state steps with
  | zero =>
    rw [attempt_runFor_zero] at ended
    cases ended
  | succ quantum inductionHypothesis =>
    rw [attempt_runFor_succ] at ended
    rcases outcome : step.attempt state with ⟨_ | _ | _ | _, next⟩ <;>
      simp only [outcome] at ended
    case ok.proceed =>
      rcases rest : (runFor quantum).attempt next with ⟨_ | ⟨executed, stop⟩, final⟩ <;>
        rw [rest] at ended <;> cases ended
      refine ⟨ordered state (Reaches.refl state), next, outcome, ?_⟩
      exact inductionHypothesis rest fun between reached => ordered between (.step outcome reached)
    case ok.endOfCode =>
      cases ended
      have exhausted := @isExhausted_of_endOfCode state.1 state.2 _ outcome
      cases (attempt_step_of_exhausted exhausted state.2).symm.trans outcome
      exact ⟨exhausted, clear⟩
    all_goals cases ended

end Orderly

/-! ### The run of a frame beside others -/

/-- A frame of a thread follows its own run: on a heap that is the same for the thread it has
an orderly run of a number of steps ahead. -/
def OnCourse (thread : ThreadId) (steps : Nat) (state : Frame × Heap) : Prop :=
  state.1.WellFormed thread ∧
    ∃ own, Heap.SameFor thread own state.2 ∧ Orderly thread steps (state.1, own)

/-- A step of a frame on its course takes it to the end of its code, leaves it in place against
the monitor of another thread, or takes it one step further. -/
theorem OnCourse.attempt_step {thread : ThreadId} {steps : Nat} {frame : Frame} {heap : Heap}
    (onCourse : OnCourse thread steps (frame, heap)) :
    (step.attempt (frame, heap) = (.ok .endOfCode, (frame, heap)) ∧ steps = 0 ∧
        heap.ClearOf thread) ∨
      (step.attempt (frame, heap) = (.ok .yield, (frame.rewound, heap)) ∧
        OnCourse thread steps (frame.rewound, heap)) ∨
      ∃ left next, step.attempt (frame, heap) = (.ok .proceed, next) ∧ steps = left + 1 ∧
        OnCourse thread left next := by
  obtain ⟨wellFormed, own, same, orderly⟩ := onCourse
  cases steps with
  | zero =>
    refine Or.inl ⟨attempt_step_of_exhausted orderly.1 heap, rfl, ?_⟩
    exact same.clearOf orderly.2
  | succ left =>
    by_cases blocked : frame.Blocked heap
    · refine Or.inr (Or.inl ⟨attempt_step_of_blocked wellFormed blocked, ?_⟩)
      exact ⟨wellFormed.rewound, own, same, orderly.rewound⟩
    · obtain ⟨-, ⟨next, further⟩, proceeds, later⟩ := orderly
      have sameHere := wellFormed.thread_eq.symm ▸ same
      obtain ⟨reached, proceedsHere, stillSame⟩ := step_sameFor sameHere proceeds blocked
      have kept := keeps_step_wellFormed (frame, heap) wellFormed
      rw [proceedsHere] at kept
      refine Or.inr (Or.inr ⟨left, (next, reached), proceedsHere, rfl, kept, further, ?_, later⟩)
      exact wellFormed.thread_eq ▸ stillSame

/-- A stretch of a frame on its course ends the frame or takes it further by the instructions
that it executes. -/
theorem OnCourse.attempt_runFor {thread : ThreadId} {steps : Nat} {state : Frame × Heap}
    (onCourse : OnCourse thread steps state) (quantum : Nat) :
    ∃ stretch later, (runFor quantum).attempt state = (.ok stretch, later) ∧
      ((stretch.stop = .endOfCode ∧ stretch.executed = steps ∧ later.2.ClearOf thread) ∨
        stretch.stop ≠ .endOfCode ∧
          ∃ left, steps = left + stretch.executed ∧ OnCourse thread left later) := by
  induction quantum generalizing steps state with
  | zero =>
    refine ⟨_, state, attempt_runFor_zero state, Or.inr ⟨nofun, steps, rfl, onCourse⟩⟩
  | succ quantum inductionHypothesis =>
    rw [attempt_runFor_succ]
    obtain ⟨ends, rfl, clear⟩ | ⟨yields, still⟩ | ⟨left, next, proceeds, rfl, further⟩ :=
      onCourse.attempt_step
    · simp only [ends]
      exact ⟨_, _, rfl, Or.inl ⟨rfl, rfl, clear⟩⟩
    · simp only [yields]
      exact ⟨_, _, rfl, Or.inr ⟨nofun, steps, rfl, still⟩⟩
    · obtain ⟨stretch, later, rest, outcome⟩ := inductionHypothesis further
      simp only [proceeds, rest]
      refine ⟨_, _, rfl, ?_⟩
      obtain ⟨stopped, rfl, clear⟩ | ⟨stopped, ahead, rfl, onward⟩ := outcome
      · exact Or.inl ⟨stopped, rfl, clear⟩
      · exact Or.inr ⟨stopped, ahead, rfl, onward⟩

end Frame

namespace Thread

/-! ### Threads that lock in order -/

/-- Alone on a heap the thread comes to its end without a fault and then holds no monitor, and
whenever it is about to enter a monitor that it does not hold yet, every monitor that it holds
is of an object with a smaller index. -/
structure LocksInOrder (thread : Thread) (heap : Heap) : Prop where
  ends : ∃ quantum executed last, (turn quantum).attempt (thread, heap) =
    (.ok ⟨executed, .terminated⟩, last) ∧ last.2.ClearOf thread.id
  entersInOrder : ∀ frame ∈ thread.frames, ∀ state, Frame.Reaches (frame, heap) state →
    Frame.EntersInOrder thread.id state

/-- A thread with one frame locks in order exactly when that frame has an orderly run. -/
theorem locksInOrder_iff (id : ThreadId) (frame : Frame) (heap : Heap) :
    LocksInOrder ⟨id, [frame]⟩ heap ↔ ∃ steps, Frame.Orderly id steps (frame, heap) := by
  constructor
  · rintro ⟨⟨quantum, executed, last, ended, clear⟩, ordered⟩
    rw [attempt_turn_of_single] at ended
    rcases stretch : (Frame.runFor quantum).attempt (frame, heap) with
      ⟨_ | ⟨count, _ | _ | _⟩, later⟩ <;> rw [stretch] at ended <;> cases ended
    exact ⟨executed, Frame.Orderly.of_runFor stretch clear
      (ordered frame (List.mem_singleton.mpr rfl))⟩
  · rintro ⟨steps, orderly⟩
    obtain ⟨last, ended, clear⟩ := orderly.attempt_runFor
    refine ⟨⟨steps + 1, steps, (⟨id, []⟩, last.2), ?_, clear⟩, ?_⟩
    · rw [attempt_turn_of_single, ended]
    · intro other member state reached
      rw [List.mem_singleton] at member
      subst member
      exact Frame.Orderly.of_reaches reached orderly

/-- A thread follows its own run: it has one frame, and that is on its course. -/
def OnCourse (thread : Thread) (steps : Nat) (heap : Heap) : Prop :=
  ∃ frame, thread.frames = [frame] ∧ Frame.OnCourse thread.id steps (frame, heap)

namespace OnCourse

variable {thread : Thread} {steps : Nat} {heap : Heap}

theorem of_locksInOrder {id : ThreadId} {frame : Frame} (wellFormed : frame.WellFormed id)
    (ordered : LocksInOrder ⟨id, [frame]⟩ heap) :
    ∃ steps, OnCourse ⟨id, [frame]⟩ steps heap := by
  obtain ⟨steps, orderly⟩ := (locksInOrder_iff id frame heap).mp ordered
  exact ⟨steps, frame, rfl, wellFormed, heap, Heap.SameFor.refl id heap, orderly⟩

theorem wellFormed (onCourse : thread.OnCourse steps heap) : thread.WellFormed := by
  obtain ⟨id, frames⟩ := thread
  obtain ⟨frame, single, inOrder, -⟩ := onCourse
  cases single
  exact ⟨Nat.le_refl 1, List.forall_mem_singleton.mpr inOrder⟩

theorem isTerminated_eq_false (onCourse : thread.OnCourse steps heap) :
    thread.isTerminated = false := by
  obtain ⟨frame, single, -⟩ := onCourse
  rw [isTerminated, single]
  rfl

/-- What others do to the heap does not bring the thread off its course. -/
theorem of_sameFor (onCourse : thread.OnCourse steps heap) {later : Heap}
    (same : Heap.SameFor thread.id heap later) : thread.OnCourse steps later := by
  obtain ⟨frame, single, inOrder, own, known, orderly⟩ := onCourse
  exact ⟨frame, single, inOrder, own, known.trans same, orderly⟩

/-- A thread that waits for a monitor holds only monitors of objects with smaller indices. -/
theorem index_lt (onCourse : thread.OnCourse steps heap) {frame : Frame} {reference : ObjectRef}
    {owner : ThreadId} (current : thread.current? = some frame)
    (entering : frame.AboutToEnter reference)
    (locked : heap.LockedBy reference.index.toNat owner) (other : owner ≠ thread.id) {index : Nat}
    (held : heap.LockedBy index thread.id) : index < reference.index.toNat := by
  obtain ⟨own, single, -, alone, same, orderly⟩ := onCourse
  rw [current?, single] at current
  cases current
  refine orderly.entersInOrder reference entering (fun heldAlone => ?_) index
    ((same.lockedBy_iff index).mpr held)
  exact other (locked.owner_unique ((same.lockedBy_iff _).mp heldAlone))

/-- A turn of a thread on its course ends it with nothing left to do and no monitor held, or
takes it further by the instructions that it completes. -/
theorem attempt_turn (onCourse : thread.OnCourse steps heap) (quantum : Nat) :
    ∃ turn reached after, (Thread.turn quantum).attempt (thread, heap) =
        (.ok turn, (reached, after)) ∧ reached.id = thread.id ∧
      ((turn.state = .terminated ∧ reached.isTerminated ∧ turn.executed = steps ∧
          after.ClearOf thread.id) ∨
        turn.state ≠ .terminated ∧
          ∃ left, steps = left + turn.executed ∧ reached.OnCourse left after) := by
  obtain ⟨id, frames⟩ := thread
  obtain ⟨frame, single, state⟩ := onCourse
  cases single
  obtain ⟨⟨executed, stop⟩, ⟨next, after⟩, stretch, outcome⟩ := state.attempt_runFor quantum
  rw [attempt_turn_of_single, stretch]
  obtain ⟨rfl, rfl, clear⟩ | ⟨goesOn, left, rfl, further⟩ := outcome
  · exact ⟨_, _, _, rfl, rfl, Or.inl ⟨rfl, rfl, rfl, clear⟩⟩
  · have onward : OnCourse ⟨id, [next]⟩ left after := ⟨next, rfl, further⟩
    cases stop
    · exact ⟨_, _, _, rfl, rfl, Or.inr ⟨nofun, left, rfl, onward⟩⟩
    · exact ⟨_, _, _, rfl, rfl, Or.inr ⟨nofun, left, rfl, onward⟩⟩
    · exact absurd rfl goesOn

end OnCourse

end Thread

end BytecodeMachine
