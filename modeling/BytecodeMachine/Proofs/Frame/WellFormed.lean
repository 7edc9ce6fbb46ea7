/-
This file says when a frame is in order and shows that every action of which
the instructions consist keeps it so, whether it succeeds or fails: the frame
stays with its thread, its operand stack accounts for its slots, and its cursor
does not pass the end of the code.
-/

import BytecodeMachine.Proofs.Frame.Invariant
import BytecodeMachine.Proofs.OperandStack.Accounting

namespace BytecodeMachine.Frame

/-- A frame of a thread is in order when its operand stack is and its cursor has not passed the
end of the code. -/
structure WellFormed (thread : ThreadId) (frame : Frame) : Prop where
  thread_eq : frame.thread = thread
  stack_wellFormed : frame.stack.WellFormed
  cursor_le : frame.cursor.position ≤ frame.cursor.code.size

variable {α : Type} {thread : ThreadId}

theorem keeps_onStack {action : Action OperandStack α}
    (kept : action.Keeps OperandStack.WellFormed) :
    (onStack action).Keeps (WellFormed thread) :=
  fun frame wellFormed => ⟨wellFormed.thread_eq, kept frame.stack wellFormed.stack_wellFormed,
    wellFormed.cursor_le⟩

theorem keeps_onLocals (action : Action Locals α) : (onLocals action).Keeps (WellFormed thread) :=
  fun _ wellFormed => ⟨wellFormed.thread_eq, wellFormed.stack_wellFormed, wellFormed.cursor_le⟩

theorem keeps_reading {reader : Reader α} (forward : reader.Forward) :
    (reading reader).Keeps (WellFormed thread) := by
  intro frame wellFormed
  obtain ⟨sameCode, -, notPast⟩ := forward frame.cursor
  rw [attempt_reading]
  refine ⟨wellFormed.thread_eq, wellFormed.stack_wellFormed, ?_⟩
  show (reader.attempt frame.cursor).2.position ≤ (reader.attempt frame.cursor).2.code.size
  rw [sameCode]
  exact Nat.le_trans notPast (Nat.max_le.mpr ⟨wellFormed.cursor_le, Nat.le_refl _⟩)

theorem keeps_goto (target : Nat) : (goto target).Keeps (WellFormed thread) := by
  intro frame wellFormed
  rw [attempt_goto]
  split
  · next inside => exact ⟨wellFormed.thread_eq, wellFormed.stack_wellFormed, Nat.le_of_lt inside⟩
  · exact wellFormed

theorem keeps_push (value : Value) : (push value).Keeps (WellFormed thread) :=
  keeps_onStack (OperandStack.keeps_push value)

theorem keeps_pop : pop.Keeps (WellFormed thread) :=
  keeps_onStack OperandStack.keeps_pop

/-- A frame in order stays in order, whatever its values are. -/
theorem invariant_wellFormed (thread : ThreadId) :
    Invariant thread .anything (WellFormed thread) where
  thread_eq wellFormed := wellFormed.thread_eq
  remembers _ wellFormed :=
    ⟨wellFormed.thread_eq, wellFormed.stack_wellFormed, wellFormed.cursor_le⟩
  keeps_reading := keeps_reading
  keeps_goto := keeps_goto
  keeps_pop := keeps_pop
  gives_pop := fun _ _ _ _ => trivial
  keeps_push _ := keeps_push _
  keeps_shuffle operation := keeps_onStack (OperandStack.keeps_shuffle operation)
  gives_getLocal := fun _ _ _ _ _ => trivial
  keeps_setLocal _ := keeps_onLocals _

end BytecodeMachine.Frame
