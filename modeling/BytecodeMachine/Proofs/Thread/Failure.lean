/-
This file says what a turn that fails leaves of its thread: the frame stays,
stopped inside its code, and is ready for another turn like any other frame. In
that it completes an instruction if a step lets it, and it never does when no
code is left.
-/

import BytecodeMachine.Proofs.Frame.Failure
import BytecodeMachine.Proofs.Thread.Turn

namespace BytecodeMachine

/-! ### Turns that fail -/

namespace Frame

/-- The cursor stands behind the beginning of an instruction, which the frame remembers, but not
beyond the end of the code. -/
def StoppedInside (frame : Frame) : Prop :=
  frame.pc < frame.cursor.position ∧ frame.cursor.position ≤ frame.cursor.code.size

theorem stoppedInside_of_step_error {thread : ThreadId} {frame later : Frame} {heap left : Heap}
    {fault : Fault} (wellFormed : frame.WellFormed thread)
    (failed : step.attempt (frame, heap) = (.error fault, (later, left))) :
    later.StoppedInside := by
  obtain ⟨start, sameCode, onward, notPast⟩ := cursor_of_step_error wellFormed failed
  exact ⟨start ▸ onward, sameCode ▸ notPast⟩

end Frame

namespace Thread

/-- A thread that fails in its turn keeps its frame, and that has been stopped inside its code. -/
theorem exists_frame_of_turn_error {thread stopped : Thread} {quantum : Nat} {heap left : Heap}
    {fault : Fault} (wellFormed : thread.WellFormed)
    (failed : (turn quantum).attempt (thread, heap) = (.error fault, (stopped, left))) :
    ∃ frame, stopped = ⟨thread.id, [frame]⟩ ∧ frame.StoppedInside := by
  obtain ⟨id, frames⟩ := thread
  obtain none | ⟨frame, single, inOrder⟩ := wellFormed.frames_eq
  · cases none
    cases failed
  · cases single
    rw [attempt_turn_of_single] at failed
    rcases stretched : (Frame.runFor quantum).attempt (frame, heap) with
      ⟨_ | ⟨executed, _ | _ | _⟩, next, after⟩ <;> rw [stretched] at failed <;> cases failed
    obtain ⟨reached, fine, broke⟩ :=
      Frame.exists_last_step Frame.keeps_step_wellFormed inOrder stretched rfl
    exact ⟨next, rfl, Frame.stoppedInside_of_step_error fine broke⟩

/-- In a turn on a heap the thread would complete an instruction. -/
def CompletesOn (thread : Thread) (heap : Heap) : Prop :=
  ∃ frame next, thread.current? = some frame ∧
    Frame.step.attempt (frame, heap) = (.ok .proceed, next)

theorem completesOn_single_iff {id : ThreadId} {frame : Frame} {heap : Heap} :
    CompletesOn ⟨id, [frame]⟩ heap ↔
      ∃ next, Frame.step.attempt (frame, heap) = (.ok .proceed, next) := by
  constructor
  · rintro ⟨_, next, ⟨⟩, proceeds⟩
    exact ⟨next, proceeds⟩
  · rintro ⟨next, proceeds⟩
    exact ⟨frame, next, rfl, proceeds⟩

/-- The frames of the thread have no code left. -/
def Spent (thread : Thread) : Prop :=
  ∀ frame ∈ thread.frames, frame.isExhausted

theorem keeps_turn_spent (quantum : Nat) : (turn quantum).Keeps fun state => state.1.Spent := by
  intro state spent
  have still : Frame.step.Keeps fun state => state.1.isExhausted ∧ True := by
    rintro ⟨frame, heap⟩ ⟨ended, -⟩
    rw [Frame.attempt_step_of_exhausted ended]
    exact ⟨ended, trivial⟩
  exact (@keeps_turnOf state.1.id _ (fun _ => True) still state.1.frames quantum state.2 spent
    trivial).1

theorem Spent.not_completesOn {thread : Thread} (spent : thread.Spent) (heap : Heap) :
    ¬ thread.CompletesOn heap := by
  rintro ⟨frame, next, current, proceeds⟩
  have ended := spent frame (List.mem_of_head? current)
  cases (Frame.attempt_step_of_exhausted ended heap).symm.trans proceeds

end Thread

end BytecodeMachine
