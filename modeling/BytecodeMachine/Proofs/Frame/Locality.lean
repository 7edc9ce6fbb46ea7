/-
This file says how far a step reaches into the heap. It touches at most one
monitor, that of the object to which the top of the operand stack refers; what
it does with the frame and with that monitor is the same on any two heaps that
agree on the object.
-/

import BytecodeMachine.Proofs.Frame.Step
import BytecodeMachine.Proofs.Heap.Agreement

namespace BytecodeMachine.Frame

/-! ### The monitor instructions -/

/-- The outcome of an action on a frame and a heap, with the heap set apart. -/
def respond {α : Type} (action : Action (Frame × Heap) α) (frame : Frame) (heap : Heap) :
    (Except Fault α × Frame) × Heap :=
  (((action.attempt (frame, heap)).1, (action.attempt (frame, heap)).2.1),
    (action.attempt (frame, heap)).2.2)

/-- Apart from the frame, nothing has a part in the action but the monitor of the object on top
of the operand stack, if anything has. -/
def Reach {α : Type} (action : Action (Frame × Heap) α) (frame : Frame) : Prop :=
  (∃ answer, ∀ heap, respond action frame heap = (answer, heap)) ∨
    ∃ reference, frame.stack.values.head? = some (.reference reference) ∧
      Heap.Local reference (respond action frame)

/-- An action that begins with taking a reference reaches no object without one. -/
theorem reach_popObject_bind {α : Type} {next : ObjectRef → Action (Frame × Heap) α}
    {frame : Frame}
    (isLocal : ∀ reference popped, pop.attempt frame = (.ok (.reference reference), popped) →
      Heap.Local reference (respond (Action.onFirst popObject >>= next) frame)) :
    Reach (Action.onFirst popObject >>= next) frame := by
  rcases taken : popObject.attempt frame with ⟨fault | reference, popped⟩
  · refine Or.inl ⟨(.error fault, popped), fun heap => ?_⟩
    have first : (Action.onFirst popObject).attempt (frame, heap) =
        (.error fault, (popped, heap)) := by
      rw [Action.attempt_onFirst, taken]
    rw [respond, Action.attempt_bind_of_error _ first]
  · have onTop := pop_of_popObject taken
    exact Or.inr ⟨reference, head?_of_pop onTop, isLocal reference popped onTop⟩

/-- What becomes of a frame and its instruction once the heap has answered its attempt to enter a
monitor. -/
def afterEntry (reference : ObjectRef) (popped : Frame) :
    Except Fault Entry → Except Fault Signal × Frame
  | .ok (.acquired _) => (.ok .proceed, popped)
  | .ok (.contended _) =>
    (do
      push (.reference reference)
      goto popped.pc
      return .yield : Action Frame Signal).attempt popped
  | .error fault => (.error fault, popped)

theorem reach_enterMonitor (frame : Frame) : Reach enterMonitor frame := by
  refine reach_popObject_bind fun reference popped taken => ?_
  have answered : respond enterMonitor frame = fun heap =>
      (afterEntry reference popped ((Heap.enter reference frame.thread).attempt heap).1,
        ((Heap.enter reference frame.thread).attempt heap).2) := by
    funext heap
    rw [respond, attempt_enterMonitor_of_pop taken]
    rcases (Heap.enter reference frame.thread).attempt heap with ⟨_ | _ | _, next⟩
    · rfl
    · rfl
    · simp only [afterEntry, Action.attempt_bind, Action.attempt_onFirst]
      rcases (push (.reference reference)).attempt popped with ⟨_ | _, pushed⟩
      · rfl
      · simp only
        rcases (goto popped.pc).attempt pushed with ⟨_ | _, back⟩ <;> rfl
  exact answered ▸ (Heap.local_enter reference frame.thread).map (afterEntry reference popped)

theorem reach_exitMonitor (frame : Frame) : Reach exitMonitor frame := by
  refine reach_popObject_bind fun reference popped taken => ?_
  have answered : respond exitMonitor frame = fun heap =>
      ((((Heap.exit reference frame.thread).attempt heap).1.map fun _ => Signal.proceed, popped),
        ((Heap.exit reference frame.thread).attempt heap).2) := by
    funext heap
    rw [respond, attempt_exitMonitor_of_pop taken]
  exact answered ▸ (Heap.local_exit reference frame.thread).map fun answer =>
    (answer.map fun _ => Signal.proceed, popped)

/-! ### Steps -/

theorem Reach.of_respond_eq {α : Type} {action other : Action (Frame × Heap) α}
    {frame middle : Frame} (reach : Reach other middle)
    (same : respond action frame = respond other middle) (sameStack : middle.stack = frame.stack) :
    Reach action frame := by
  obtain ⟨answer, apart⟩ | ⟨reference, top, isLocal⟩ := reach
  · exact Or.inl ⟨answer, same ▸ apart⟩
  · exact Or.inr ⟨reference, sameStack ▸ top, same ▸ isLocal⟩

theorem reach_execute (instruction : Instruction) (frame : Frame) :
    Reach (execute instruction) frame := by
  cases concerned : aloneAction? instruction with
  | some action =>
    refine Or.inl ⟨((action.attempt frame).1.map fun _ => .proceed, (action.attempt frame).2),
      fun heap => ?_⟩
    rw [respond, attempt_execute_of_aloneAction? concerned]
  | none =>
    cases instruction <;> simp only [aloneAction?, reduceCtorEq] at concerned
    case monitorenter =>
      refine (reach_enterMonitor frame).of_respond_eq (funext fun heap => ?_) rfl
      rw [respond, respond, attempt_execute_monitorenter]
    case monitorexit =>
      refine (reach_exitMonitor frame).of_respond_eq (funext fun heap => ?_) rfl
      rw [respond, respond, attempt_execute_monitorexit]

/-- A step reaches at most the monitor of the object on top of the operand stack. -/
theorem reach_step (frame : Frame) : Reach step frame := by
  cases more : frame.isExhausted with
  | true =>
    refine Or.inl ⟨(.ok .endOfCode, frame), fun heap => ?_⟩
    rw [respond, attempt_step_of_exhausted more]
  | false =>
    rcases read : Reader.attempt Instruction.read frame.cursor with ⟨fault | instruction, cursor⟩
    · refine Or.inl ⟨(.error (.unreadableCode fault),
        { frame with pc := frame.cursor.position, cursor }), fun heap => ?_⟩
      have first : (Action.onFirst readInstruction).attempt (frame, heap) =
          (.error (.unreadableCode fault),
            ({ frame with pc := frame.cursor.position, cursor }, heap)) := by
        rw [Action.attempt_onFirst, attempt_readInstruction, read]
        rfl
      rw [respond, attempt_step_of_more more, Action.attempt_bind_of_error _ first]
    · refine (reach_execute instruction
        { frame with pc := frame.cursor.position, cursor }).of_respond_eq
          (funext fun heap => ?_) rfl
      rw [respond, respond, attempt_step_of_read read]

/-- On heaps that agree on the object on top of the operand stack a step has the same answer and
the same effect on the frame, and the heaps stay in agreement. -/
theorem step_alike {own : Nat → Prop} {frame : Frame} {left right : Heap}
    (mine : ∀ reference, frame.stack.values.head? = some (.reference reference) →
      own reference.index.toNat)
    (agree : Heap.AgreeOn own left right) :
    Heap.Alike own (step.attempt (frame, left)) (step.attempt (frame, right)) := by
  have same : (respond step frame left).1 = (respond step frame right).1 ∧
      Heap.AgreeOn own (respond step frame left).2 (respond step frame right).2 := by
    obtain ⟨answer, apart⟩ | ⟨reference, top, isLocal⟩ := reach_step frame
    · rw [apart, apart]
      exact ⟨rfl, agree⟩
    · exact isLocal.agree (mine reference top) agree
  obtain ⟨both, still⟩ := same
  have answers := congrArg Prod.fst both
  have frames := congrArg Prod.snd both
  exact ⟨answers, frames, still⟩

end BytecodeMachine.Frame
