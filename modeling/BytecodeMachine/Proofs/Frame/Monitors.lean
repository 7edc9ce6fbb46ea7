/-
This file says what the two monitor instructions do to a frame. A frame that
meets the monitor of another thread is brought back to where it stood, and
nothing on the way there can fail, however full the operand stack is.
-/

import BytecodeMachine.Proofs.Frame.WellFormed
import BytecodeMachine.Proofs.Heap.Locks

namespace BytecodeMachine.Frame

/-! ### Taking a reference off the operand stack -/

theorem attempt_pop (frame : Frame) :
    pop.attempt frame = ((OperandStack.pop.attempt frame.stack).1,
      { frame with stack := (OperandStack.pop.attempt frame.stack).2 }) := rfl

theorem head?_of_pop {frame popped : Frame} {value : Value}
    (taken : pop.attempt frame = (.ok value, popped)) :
    frame.stack.values.head? = some value := by
  rw [attempt_pop, OperandStack.attempt_pop] at taken
  cases values : frame.stack.values with
  | nil => simp [values] at taken
  | cons top below =>
    simp only [values, Prod.mk.injEq, Except.ok.injEq] at taken
    rw [List.head?_cons, taken.1]

theorem exists_pop_of_head? {frame : Frame} {value : Value}
    (top : frame.stack.values.head? = some value) :
    ∃ stack, pop.attempt frame = (.ok value, { frame with stack }) := by
  rw [attempt_pop, OperandStack.attempt_pop]
  cases values : frame.stack.values with
  | nil => simp [values] at top
  | cons first below =>
    rw [values, List.head?_cons, Option.some.injEq] at top
    exact ⟨_, by rw [top]⟩

/-- Everything but the operand stack is out of the reach of a pop. -/
theorem eq_of_pop {frame popped : Frame} {result : Except Fault Value}
    (taken : pop.attempt frame = (result, popped)) :
    popped = { frame with stack := popped.stack } := by
  rw [attempt_pop] at taken
  cases taken
  rfl

theorem attempt_push_of_pop {thread : ThreadId} {frame popped : Frame} {value : Value}
    (wellFormed : frame.WellFormed thread) (taken : pop.attempt frame = (.ok value, popped)) :
    (push value).attempt popped = (.ok (), frame) := by
  have onStack : OperandStack.pop.attempt frame.stack = (.ok value, popped.stack) := by
    rw [attempt_pop, Prod.mk.injEq] at taken
    obtain ⟨answer, rfl⟩ := taken
    exact Prod.ext answer rfl
  have restored := OperandStack.attempt_push_of_pop wellFormed.stack_wellFormed onStack
  rw [push, Frame.onStack, Action.attempt_zoom, eq_of_pop taken]
  simp only [restored]

theorem pop_of_popObject {frame popped : Frame} {reference : ObjectRef}
    (taken : popObject.attempt frame = (.ok reference, popped)) :
    pop.attempt frame = (.ok (.reference reference), popped) := by
  obtain ⟨value, reached, first, rest⟩ := Action.attempt_bind_eq_ok taken
  cases value <;> cases rest
  exact first

theorem popObject_of_pop {frame popped : Frame} {reference : ObjectRef}
    (taken : pop.attempt frame = (.ok (.reference reference), popped)) :
    popObject.attempt frame = (.ok reference, popped) :=
  Action.attempt_bind_of_ok _ taken

/-! ### The monitor instructions -/

theorem attempt_execute_monitorenter (frame : Frame) (heap : Heap) :
    (execute .monitorenter).attempt (frame, heap) = enterMonitor.attempt (frame, heap) := by
  rw [execute, Action.attempt_bind_of_ok _ (Action.attempt_get _),
    Action.attempt_bind_of_ok _ (Action.attempt_report _ _)]

theorem attempt_execute_monitorexit (frame : Frame) (heap : Heap) :
    (execute .monitorexit).attempt (frame, heap) = exitMonitor.attempt (frame, heap) := by
  rw [execute, Action.attempt_bind_of_ok _ (Action.attempt_get _),
    Action.attempt_bind_of_ok _ (Action.attempt_report _ _)]

/-- With the reference taken, entering a monitor comes down to what the heap answers. -/
theorem attempt_enterMonitor_of_pop {frame popped : Frame} {heap : Heap} {reference : ObjectRef}
    (taken : pop.attempt frame = (.ok (.reference reference), popped)) :
    enterMonitor.attempt (frame, heap) =
      match (Heap.enter reference frame.thread).attempt heap with
      | (.ok (.acquired _), next) => (.ok .proceed, (popped, next))
      | (.ok (.contended _), next) =>
        (do
          Action.onFirst (push (.reference reference))
          Action.onFirst (goto popped.pc)
          return .yield : Action (Frame × Heap) Signal).attempt (popped, next)
      | (.error fault, next) => (.error fault, (popped, next)) := by
  have first : (Action.onFirst popObject).attempt (frame, heap) =
      (.ok reference, (popped, heap)) := by
    rw [Action.attempt_onFirst, popObject_of_pop taken]
  have sameThread : popped.thread = frame.thread := by rw [eq_of_pop taken]
  rw [enterMonitor, Action.attempt_bind_of_ok _ first,
    Action.attempt_bind_of_ok _ (Action.attempt_get _), Action.attempt_bind,
    Action.attempt_onSecond]
  simp only [sameThread]
  rcases (Heap.enter reference frame.thread).attempt heap with ⟨_ | _ | _, next⟩ <;> rfl

theorem attempt_exitMonitor_of_pop {frame popped : Frame} {heap : Heap} {reference : ObjectRef}
    (taken : pop.attempt frame = (.ok (.reference reference), popped)) :
    exitMonitor.attempt (frame, heap) =
      (((Heap.exit reference frame.thread).attempt heap).1.map fun _ => .proceed,
        (popped, ((Heap.exit reference frame.thread).attempt heap).2)) := by
  have first : (Action.onFirst popObject).attempt (frame, heap) =
      (.ok reference, (popped, heap)) := by
    rw [Action.attempt_onFirst, popObject_of_pop taken]
  have sameThread : popped.thread = frame.thread := by rw [eq_of_pop taken]
  rw [exitMonitor, Action.attempt_bind_of_ok _ first,
    Action.attempt_bind_of_ok _ (Action.attempt_get _), Action.attempt_bind,
    Action.attempt_onSecond]
  simp only [sameThread]
  rcases (Heap.exit reference frame.thread).attempt heap with ⟨_ | _, next⟩ <;> rfl

/-- An action that begins with taking a reference succeeds only when there is one. -/
theorem exists_pop_of_popObject_bind {α : Type} {next : ObjectRef → Action (Frame × Heap) α}
    {frame : Frame} {heap : Heap} {answer : α} {later : Frame × Heap}
    (success : (Action.onFirst popObject >>= next).attempt (frame, heap) = (.ok answer, later)) :
    ∃ reference popped, pop.attempt frame = (.ok (.reference reference), popped) := by
  obtain ⟨reference, reached, first, -⟩ := Action.attempt_bind_eq_ok success
  rw [Action.attempt_onFirst, Prod.mk.injEq] at first
  obtain ⟨found, rfl⟩ := first
  exact ⟨reference, _, pop_of_popObject (Prod.ext found rfl)⟩

/-! ### Waiting for a monitor -/

/-- The frame is about to enter the monitor of an object: the byte of that instruction comes
next, and a reference to the object is on top of the operand stack. -/
def AboutToEnter (frame : Frame) (reference : ObjectRef) : Prop :=
  frame.cursor.peek? 0 = some Opcode.monitorenter.byte ∧
    frame.stack.values.head? = some (.reference reference)

/-- The object whose monitor the frame is about to enter, if there is one. -/
def awaited? (frame : Frame) : Option ObjectRef :=
  match frame.cursor.peek? 0, frame.stack.values.head? with
  | some byte, some (.reference reference) =>
    if byte = Opcode.monitorenter.byte then some reference else none
  | _, _ => none

theorem awaited?_eq_some_iff (frame : Frame) (reference : ObjectRef) :
    frame.awaited? = some reference ↔ frame.AboutToEnter reference := by
  unfold awaited? AboutToEnter
  split
  · next byte other here top =>
    rw [here, top]
    by_cases entering : byte = Opcode.monitorenter.byte <;> simp [entering]
  · next different =>
    refine ⟨nofun, fun ⟨here, top⟩ => ?_⟩
    exact absurd top (different _ _ here)

/-- The frame is about to enter a monitor that another thread holds. -/
def Blocked (frame : Frame) (heap : Heap) : Prop :=
  ∃ reference owner, frame.AboutToEnter reference ∧
    heap.LockedBy reference.index.toNat owner ∧ owner ≠ frame.thread

/-- The frame with the offset of the next instruction as the one that it remembers. -/
def rewound (frame : Frame) : Frame :=
  { frame with pc := frame.cursor.position }

/-- Entering a monitor of another thread brings the frame back to the instruction. -/
theorem attempt_enterMonitor_of_lockedBy {thread owner : ThreadId} {frame : Frame} {heap : Heap}
    {reference : ObjectRef} (wellFormed : frame.WellFormed thread)
    (top : frame.stack.values.head? = some (.reference reference))
    (inside : frame.pc < frame.cursor.code.size)
    (locked : heap.LockedBy reference.index.toNat owner) (other : owner ≠ frame.thread) :
    enterMonitor.attempt (frame, heap) =
      (.ok .yield,
        ({ frame with cursor := { frame.cursor with position := frame.pc } }, heap)) := by
  obtain ⟨stack, taken⟩ := exists_pop_of_head? top
  have pushed : (Action.onFirst (push (.reference reference))).attempt
      ({ frame with stack }, heap) = (.ok (), (frame, heap)) := by
    rw [Action.attempt_onFirst, attempt_push_of_pop wellFormed taken]
  rw [attempt_enterMonitor_of_pop taken, Heap.attempt_enter_of_lockedBy locked other]
  simp only
  rw [Action.attempt_bind_of_ok _ pushed, Action.attempt_bind, Action.attempt_onFirst,
    attempt_goto, if_pos inside]
  rfl

/-- Entering a monitor succeeds in two ways: the reference is taken and the monitor entered, or
another thread holds the monitor and the frame yields. -/
theorem enterMonitor_eq_ok {frame : Frame} {heap : Heap} {signal : Signal} {later : Frame × Heap}
    (success : enterMonitor.attempt (frame, heap) = (.ok signal, later)) :
    ∃ reference popped, pop.attempt frame = (.ok (.reference reference), popped) ∧
      ((∃ count next, signal = .proceed ∧ later = (popped, next) ∧
          (Heap.enter reference frame.thread).attempt heap = (.ok (.acquired count), next)) ∨
        ∃ owner, signal = .yield ∧ heap.LockedBy reference.index.toNat owner ∧
          owner ≠ frame.thread) := by
  obtain ⟨reference, popped, taken⟩ := exists_pop_of_popObject_bind success
  refine ⟨reference, popped, taken, ?_⟩
  rw [attempt_enterMonitor_of_pop taken] at success
  rcases answer : (Heap.enter reference frame.thread).attempt heap with
    ⟨_ | count | owner, next⟩ <;> simp only [answer] at success
  · cases success
  · cases success
    exact Or.inl ⟨count, next, rfl, rfl, rfl⟩
  · obtain ⟨_, _, -, rest⟩ := Action.attempt_bind_eq_ok success
    obtain ⟨_, _, -, last⟩ := Action.attempt_bind_eq_ok rest
    cases last
    obtain ⟨-, locked, other⟩ := Heap.attempt_enter_eq_contended answer
    exact Or.inr ⟨owner, rfl, locked, other⟩

theorem exitMonitor_eq_ok {frame : Frame} {heap : Heap} {signal : Signal} {later : Frame × Heap}
    (success : exitMonitor.attempt (frame, heap) = (.ok signal, later)) :
    ∃ reference popped next, pop.attempt frame = (.ok (.reference reference), popped) ∧
      signal = .proceed ∧ later = (popped, next) ∧
      (Heap.exit reference frame.thread).attempt heap = (.ok (), next) := by
  obtain ⟨reference, popped, taken⟩ := exists_pop_of_popObject_bind success
  rw [attempt_exitMonitor_of_pop taken, Prod.mk.injEq] at success
  obtain ⟨answer, rfl⟩ := success
  obtain ⟨_, exited, rfl⟩ := Except.exists_of_map_eq_ok answer
  exact ⟨reference, popped, _, taken, rfl, rfl, Prod.ext exited rfl⟩

/-! ### The monitor instructions on two heaps -/

/-- A thread that enters a monitor on one heap does so on every heap that is the same for it,
unless another thread holds the monitor there. -/
theorem enterMonitor_sameFor {frame next : Frame} {left right later : Heap}
    (same : Heap.SameFor frame.thread left right)
    (proceeds : enterMonitor.attempt (frame, left) = (.ok .proceed, (next, later)))
    (free : ∀ reference owner, frame.stack.values.head? = some (.reference reference) →
      owner ≠ frame.thread → ¬ right.LockedBy reference.index.toNat owner) :
    ∃ reached, enterMonitor.attempt (frame, right) = (.ok .proceed, (next, reached)) ∧
      Heap.SameFor frame.thread later reached := by
  obtain ⟨reference, popped, taken, ⟨count, _, -, outcome, entered⟩ | ⟨_, yields, -⟩⟩ :=
    enterMonitor_eq_ok proceeds
  · cases outcome
    obtain ⟨reached, answer, still⟩ :=
      same.enter entered fun owner => free reference owner (head?_of_pop taken)
    refine ⟨reached, ?_, still⟩
    rw [attempt_enterMonitor_of_pop taken, answer]
  · cases yields

/-- A thread that leaves a monitor on one heap does so on every heap that is the same for it. -/
theorem exitMonitor_sameFor {frame next : Frame} {left right later : Heap}
    (same : Heap.SameFor frame.thread left right)
    (proceeds : exitMonitor.attempt (frame, left) = (.ok .proceed, (next, later))) :
    ∃ reached, exitMonitor.attempt (frame, right) = (.ok .proceed, (next, reached)) ∧
      Heap.SameFor frame.thread later reached := by
  obtain ⟨reference, popped, _, taken, -, outcome, exited⟩ := exitMonitor_eq_ok proceeds
  cases outcome
  obtain ⟨reached, answer, still⟩ := same.exit exited
  refine ⟨reached, ?_, still⟩
  rw [attempt_exitMonitor_of_pop taken, answer]
  rfl

end BytecodeMachine.Frame
