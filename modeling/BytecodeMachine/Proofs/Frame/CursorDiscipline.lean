/-
This file says where the cursor stands after a step, whatever the step comes to.
Main statement: the cursor of a frame never passes the end of its code. There a
step does nothing; before it, the result of a step tells the offset that the
frame remembers and the place of its cursor.
-/

import BytecodeMachine.Proofs.Frame.Advance
import BytecodeMachine.Proofs.Frame.Failure
import BytecodeMachine.Proofs.Frame.Faults

namespace BytecodeMachine.Frame

/-- What a step before the end of the code comes to, and where it leaves the cursor. -/
structure CursorFollows (frame next : Frame) (result : Except Fault Signal) : Prop where
  not_ended : result ≠ .ok .endOfCode
  /-- A step that goes on has found an instruction with all its bytes. -/
  exists_holds : result = .ok .proceed → ∃ complete, frame.cursor.Holds complete
  /-- Every instruction but a return moves the cursor over its own bytes. -/
  onward : result = .ok .proceed → ∀ complete, frame.cursor.Holds complete →
    complete.returnIndex? = none →
      next.StandsAt frame.cursor.position (frame.cursor.skip complete.length)
  /-- A return goes to the address in its local variable, which lies inside the code. -/
  returned : result = .ok .proceed → ∀ complete index, frame.cursor.Holds complete →
    complete.returnIndex? = some index →
      ∃ offset, frame.locals.get index = .ok (.returnAddress offset) ∧
        offset.toNat < frame.cursor.code.size ∧
        next.StandsAt offset.toNat { frame.cursor with position := offset.toNat }
  /-- A step that yields stays where it is. -/
  stayed : result = .ok .yield → next.StandsAt frame.cursor.position frame.cursor
  /-- A step that fails has read a byte at least. -/
  failed : ∀ fault, result = .error fault →
    next.pc = frame.cursor.position ∧ next.cursor.code = frame.cursor.code ∧
      frame.cursor.position < next.cursor.position ∧
      next.cursor.position ≤ frame.cursor.code.size

variable {thread : ThreadId} {frame : Frame} {heap : Heap}

theorem isExhausted_iff (frame : Frame) :
    frame.isExhausted ↔ frame.cursor.code.size ≤ frame.cursor.position := by
  simp [isExhausted, Cursor.hasMore]

theorem cursorFollows_step (wellFormed : frame.WellFormed thread)
    (more : frame.isExhausted = false) (heap : Heap) :
    CursorFollows frame (step.attempt (frame, heap)).2.1 (step.attempt (frame, heap)).1 := by
  rcases outcome : step.attempt (frame, heap) with ⟨result, next, later⟩
  constructor
  case not_ended =>
    rintro rfl
    exact Bool.false_ne_true (more.symm.trans (isExhausted_of_endOfCode outcome))
  case exists_holds =>
    rintro rfl
    exact exists_holds_of_step outcome
  case onward =>
    rintro rfl complete held other
    cases goesOn_of_step held outcome with
    | onward _ stands => exact stands
    | returned returns => cases other.symm.trans returns
  case returned =>
    rintro rfl complete index held returns
    cases goesOn_of_step held outcome with
    | onward other => cases other.symm.trans returns
    | returned same found inside stands =>
      cases same.symm.trans returns
      exact ⟨_, found, inside, stands⟩
  case stayed =>
    rintro rfl
    cases (attempt_step_of_blocked wellFormed (blocked_of_yield outcome)).symm.trans outcome
    exact ⟨rfl, rfl⟩
  case failed =>
    rintro fault rfl
    exact cursor_of_step_error wellFormed outcome

/-- The cursor of a frame does not pass the end of its code, whatever the frame has been through. At
the end a step reports that and changes nothing. Before it no step reports the end: the cursor
moves behind the instruction executed, or to the address by which that returns, or stays before
an instruction that waits, or stands behind what could be read of one that failed. No step ends
in a refused jump of the reader. -/
theorem step_keeps_cursor {frame : Frame} (reachable : frame.Reachable) (heap : Heap) :
    frame.cursor.position ≤ frame.cursor.code.size ∧
    (frame.cursor.position = frame.cursor.code.size →
      step.attempt (frame, heap) = (.ok .endOfCode, (frame, heap))) ∧
    (frame.cursor.position ≠ frame.cursor.code.size →
      CursorFollows frame (step.attempt (frame, heap)).2.1 (step.attempt (frame, heap)).1) ∧
    ∀ target, (step.attempt (frame, heap)).1 ≠ .error (.unreadableCode (.invalidJump target)) := by
  have wellFormed := reachable.wellFormed
  refine ⟨wellFormed.cursor_le, fun atEnd => ?_, fun before => ?_, fun target refused => ?_⟩
  · exact attempt_step_of_exhausted (frame.isExhausted_iff.mpr (Nat.le_of_eq atEnd.symm)) heap
  · refine cursorFollows_step wellFormed (Bool.eq_false_iff.mpr fun ended => ?_) heap
    exact before (Nat.le_antisymm wellFormed.cursor_le (frame.isExhausted_iff.mp ended))
  · cases raises_step refused

/-- A frame that is to execute a wide increment. -/
def beforeWideIncrement : Frame :=
  ⟨⟨4⟩, 0, .start #[0xc4, 0x84, 0x00, 0x01, 0xff, 0xfe], ⟨[.uninitialized, .entry (.int 1)]⟩,
    .empty 0⟩

theorem step_keeps_cursor_widened :
    beforeWideIncrement.Reachable ∧
    ∃ next, step.attempt (beforeWideIncrement, .empty 0) = (.ok .proceed, (next, .empty 0)) ∧
      next.StandsAt 0 ⟨beforeWideIncrement.cursor.code, 6⟩ := by
  have created : (create ⟨4⟩ ⟨beforeWideIncrement.cursor.code, 0, 2⟩ []).attempt () =
      (.ok { beforeWideIncrement with locals := .blank 2 }, ()) := rfl
  have reachable : beforeWideIncrement.Reachable := (Reachable.create created).setLocal 1 (.int 1)
  have held : beforeWideIncrement.cursor.Holds (.widened .iinc 1 (-2)) := ⟨_, rfl, [], rfl⟩
  obtain ⟨-, -, follows, -⟩ := step_keeps_cursor reachable (.empty 0)
  exact ⟨reachable, _, rfl, (follows (by decide)).onward rfl _ held rfl⟩

end BytecodeMachine.Frame
