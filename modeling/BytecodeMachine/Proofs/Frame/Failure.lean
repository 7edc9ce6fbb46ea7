/-
This file says what a step that fails leaves behind. Main statement: heap and
local variables are as they were, and so is the operand stack, unless the
instruction takes its operand off the stack before it looks at it; these are
the stores, also the wide ones, and the two monitor instructions. The cursor
stays behind what could be read.

Nearly every instruction looks before it acts, so its failure leaves no trace.
A wide prefix has to be followed further, because it reads its operands itself
and may run out of code on the way.
-/

import BytecodeMachine.Proofs.Frame.Reachable

namespace BytecodeMachine

theorem OperandStack.atomic_push (value : Value) : (push value).Atomic := by
  intro stack later fault failed
  rw [attempt_push] at failed
  split at failed <;> cases failed
  rfl

theorem Locals.atomic_set (index : Nat) (value : Value) : (set index value).Atomic := by
  intro locals later fault failed
  rw [Action.attempt, run_set] at failed
  split at failed <;> cases failed
  rfl

/-! ### Instructions that take their operand first -/

/-- The op code with a wide form that comes next, if one does. -/
def Cursor.widenable? (cursor : Cursor) : Option Widenable := do
  let byte ← cursor.peek? 0
  let opcode ← Opcode.ofByte? byte
  opcode.widen?

def Widenable.isStore : Widenable → Bool
  | store _ => true
  | load _ | iinc | ret => false

/-- The bytes at a cursor are those of a store behind a wide prefix, none of them missing. -/
def Cursor.holdsWideStore (cursor : Cursor) : Bool :=
  cursor.widenable?.any Widenable.isStore && (cursor.peek? 2).isSome

/-- The instruction takes a value off the operand stack before anything can go wrong with it: a
store and a monitor instruction do, and a wide prefix with a store behind it. -/
def Instruction.takesTop (following : Cursor) : Instruction → Bool
  | .store .. | .storeShort .. | .monitorenter | .monitorexit => true
  | .wide => following.holdsWideStore
  | .nop | .load .. | .loadShort .. | .shuffle _ | .iinc .. | .ret _ | .invokedynamic _
  | .reserved _ => false

namespace Frame

/-- The next instruction can be read and takes a value off the operand stack first. -/
def takesTop (frame : Frame) : Bool :=
  match Reader.attempt Instruction.read frame.cursor with
  | (.ok instruction, following) => instruction.takesTop following
  | (.error _, _) => false

/-! ### Failures without a trace -/

theorem atomic_push (value : Value) : (push value).Atomic :=
  (OperandStack.atomic_push value).zoom fun _ => rfl

theorem atomic_setLocal (index : Nat) (value : Value) : (setLocal index value).Atomic :=
  (Locals.atomic_set index value).zoom fun _ => rfl

theorem atomic_goto (target : Nat) : (goto target).Atomic := by
  intro frame later fault failed
  rw [attempt_goto] at failed
  split at failed <;> cases failed
  rfl

theorem atomic_load (kind : LocalKind) (index : Nat) : (load kind index).Atomic := by
  refine Action.Atomic.inspect_bind fun value => ?_
  split
  · exact atomic_push value
  · exact Action.Atomic.fail _

theorem atomic_increment (index : Nat) (constant : Int32) : (increment index constant).Atomic := by
  refine Action.Atomic.inspect_bind fun value => ?_
  cases value
  case int number => exact atomic_setLocal _ _
  all_goals exact Action.Atomic.fail _

theorem atomic_returnTo (index : Nat) : (returnTo index).Atomic := by
  refine Action.Atomic.inspect_bind fun value => ?_
  cases value
  case returnAddress offset => exact atomic_goto _
  all_goals exact Action.Atomic.fail _

theorem shuffle_of_error {frame later : Frame} {operation : Shuffle} {fault : Fault}
    (wellFormed : frame.stack.WellFormed)
    (failed : (onStack (OperandStack.shuffle operation)).attempt frame =
      (.error fault, later)) : later = frame := by
  rw [onStack, Action.attempt_zoom, OperandStack.attempt_shuffle wellFormed] at failed
  split at failed
  · cases failed
    rfl
  · split at failed <;> cases failed
    rfl

/-! ### Failures after a value was taken -/

theorem store_of_error {kind : LocalKind} {index : Nat} {frame later : Frame} {fault : Fault}
    (failed : (store kind index).attempt frame = (.error fault, later)) :
    later = (pop.attempt frame).2 := by
  refine Action.eq_of_bind_error (fun value => ?_) failed
  split
  · exact atomic_setLocal _ _
  · exact Action.Atomic.fail _

theorem popObject_of_error {frame later : Frame} {fault : Fault}
    (failed : popObject.attempt frame = (.error fault, later)) :
    later = (pop.attempt frame).2 := by
  refine Action.eq_of_bind_error (fun value => ?_) failed
  cases value
  case reference object => exact Action.Atomic.pure _
  all_goals exact Action.Atomic.fail _

/-- An action that begins with taking a reference fails there or goes on without it. -/
theorem of_popObject_bind_error {α : Type} {next : ObjectRef → Action (Frame × Heap) α}
    {frame : Frame} {heap : Heap} {fault : Fault} {later : Frame × Heap}
    (failed : (Action.onFirst popObject >>= next).attempt (frame, heap) = (.error fault, later)) :
    later = ((pop.attempt frame).2, heap) ∨
      ∃ reference popped, pop.attempt frame = (.ok (.reference reference), popped) := by
  rw [Action.attempt_bind, Action.attempt_onFirst] at failed
  rcases taken : popObject.attempt frame with ⟨_ | reference, popped⟩ <;> rw [taken] at failed
  · cases failed
    exact Or.inl (by rw [popObject_of_error taken])
  · exact Or.inr ⟨reference, popped, pop_of_popObject taken⟩

theorem enterMonitor_of_error {thread : ThreadId} {frame : Frame} {heap : Heap} {fault : Fault}
    {later : Frame × Heap} (wellFormed : frame.WellFormed thread)
    (inside : frame.pc < frame.cursor.code.size)
    (failed : enterMonitor.attempt (frame, heap) = (.error fault, later)) :
    later = ((pop.attempt frame).2, heap) := by
  obtain done | ⟨reference, popped, taken⟩ := of_popObject_bind_error failed
  · exact done
  · have entering := @attempt_enterMonitor_of_pop frame popped heap reference taken
    rcases answer : (Heap.enter reference frame.thread).attempt heap with
      ⟨_ | _ | owner, next⟩ <;> rw [answer] at entering
    · cases entering.symm.trans failed
      have unchanged := Heap.attempt_enter_of_error (congrArg Prod.fst answer)
      rw [taken, ← unchanged, answer]
    · cases entering.symm.trans failed
    · -- a frame that meets the monitor of another thread is brought back without a fault
      obtain ⟨-, locked, other⟩ := Heap.attempt_enter_eq_contended answer
      have yields :=
        attempt_enterMonitor_of_lockedBy wellFormed (head?_of_pop taken) inside locked other
      cases yields.symm.trans failed

theorem exitMonitor_of_error {frame : Frame} {heap : Heap} {fault : Fault} {later : Frame × Heap}
    (failed : exitMonitor.attempt (frame, heap) = (.error fault, later)) :
    later = ((pop.attempt frame).2, heap) := by
  obtain done | ⟨reference, popped, taken⟩ := of_popObject_bind_error failed
  · exact done
  · rw [attempt_exitMonitor_of_pop taken, Prod.mk.injEq] at failed
    obtain ⟨refused, rfl⟩ := failed
    rw [taken, Heap.attempt_exit_of_error (Except.error_of_map_eq_error refused)]

/-! ### Failures of the wide prefix -/

/-- Of the first frame only the cursor has been moved on, and the second frame is left. -/
structure ReadOn (first second : Frame) : Prop where
  thread_eq : second.thread = first.thread
  pc_eq : second.pc = first.pc
  locals_eq : second.locals = first.locals
  stack_eq : second.stack = first.stack
  code_eq : second.cursor.code = first.cursor.code
  position_le : first.cursor.position ≤ second.cursor.position

theorem ReadOn.refl (frame : Frame) : ReadOn frame frame :=
  ⟨rfl, rfl, rfl, rfl, rfl, Nat.le_refl _⟩

theorem ReadOn.trans {first second third : Frame} (one : ReadOn first second)
    (two : ReadOn second third) : ReadOn first third :=
  ⟨two.thread_eq.trans one.thread_eq, two.pc_eq.trans one.pc_eq,
    two.locals_eq.trans one.locals_eq, two.stack_eq.trans one.stack_eq,
    two.code_eq.trans one.code_eq, Nat.le_trans one.position_le two.position_le⟩

theorem readOn_reading {α : Type} {reader : Reader α} (forward : reader.Forward) (frame : Frame) :
    ReadOn frame ((reading reader).attempt frame).2 := by
  obtain ⟨sameCode, onward, -⟩ := forward frame.cursor
  rw [attempt_reading]
  exact ⟨rfl, rfl, rfl, rfl, sameCode, onward⟩

/-- A pop and a reading on do not get in each other's way. -/
theorem ReadOn.pop {first second : Frame} (moved : ReadOn first second) :
    ReadOn (pop.attempt first).2 (pop.attempt second).2 := by
  rw [attempt_pop, attempt_pop, moved.stack_eq]
  exact ⟨moved.thread_eq, moved.pc_eq, moved.locals_eq, rfl, moved.code_eq, moved.position_le⟩

/-- A reading fails where it stands or hands on what it read. -/
theorem of_reading_bind_error {α β : Type} {reader : Reader α} {next : α → Action Frame β}
    {frame later : Frame} {fault : Fault} (forward : reader.Forward)
    (failed : (reading reader >>= next).attempt frame = (.error fault, later)) :
    (∃ short, (reader.attempt frame.cursor).1 = .error short ∧ ReadOn frame later) ∨
      ∃ value cursor, reader.attempt frame.cursor = (.ok value, cursor) ∧
        ReadOn frame { frame with cursor } ∧
        (next value).attempt { frame with cursor } = (.error fault, later) := by
  have moved := readOn_reading forward frame
  rw [Action.attempt_bind, attempt_reading] at failed
  rw [attempt_reading] at moved
  rcases read : reader.attempt frame.cursor with ⟨short | value, cursor⟩ <;>
    rw [read] at failed moved
  · cases failed
    exact Or.inl ⟨short, rfl, moved⟩
  · exact Or.inr ⟨value, cursor, rfl, moved, failed⟩

/-- A wide form fails for want of bytes, or as its narrow form does. -/
theorem executeWide_of_error {frame later : Frame} {fault : Fault}
    (failed : executeWide.attempt frame = (.error fault, later)) :
    ReadOn (if frame.cursor.holdsWideStore then (Frame.pop.attempt frame).2 else frame) later := by
  unfold Cursor.holdsWideStore
  obtain ⟨short, ends, moved⟩ | ⟨byte, second, read, first, failed⟩ :=
    of_reading_bind_error Cursor.forward_readU8 failed
  · have nothing : frame.cursor.widenable? = none := by
      rw [Cursor.widenable?, Cursor.peek?_of_readU8_error ends]
      rfl
    rwa [nothing]
  obtain ⟨here, rfl⟩ := Cursor.readU8_eq_ok_iff.mp read
  have known : frame.cursor.widenable? = (Opcode.ofByte? byte).bind Opcode.widen? := by
    rw [Cursor.widenable?, here]
    rfl
  rw [known]
  cases found : (Opcode.ofByte? byte).bind Opcode.widen? with
  | none =>
    rw [found] at failed
    cases failed
    exact first
  | some form =>
    rw [found] at failed
    obtain ⟨short, ends, moved⟩ | ⟨index, third, readIndex, onward, failed⟩ :=
      of_reading_bind_error Cursor.forward_readU16 failed
    · have nothing : frame.cursor.peek? 2 = none := Cursor.peek?_of_readU16_error ends
      rw [nothing, Option.isSome_none, Bool.and_false]
      exact first.trans moved
    · have more : (frame.cursor.peek? 2).isSome := Cursor.isSome_peek?_of_readU16 readIndex
      have moved := first.trans onward
      rw [more, Bool.and_true, Option.any_some]
      cases form with
      | load kind =>
        rw [atomic_load _ _ failed]
        exact moved
      | store kind =>
        rw [store_of_error failed]
        exact moved.pop
      | iinc =>
        obtain ⟨_, _, still⟩ | ⟨constant, fourth, _, last, failed⟩ :=
          of_reading_bind_error Cursor.forward_readI16 failed
        · exact moved.trans still
        · rw [atomic_increment _ _ failed]
          exact moved.trans last
      | ret =>
        rw [atomic_returnTo _ failed]
        exact moved

/-! ### Failing steps -/

/-- An instruction that concerns the frame alone leaves behind, when it fails, the frame as it
was, or without its top value if it is one of those that take it first. -/
theorem aloneAction_of_error {thread : ThreadId} {instruction : Instruction}
    {action : Action Frame Unit} {frame later : Frame} {fault : Fault}
    (concerned : aloneAction? instruction = some action) (wellFormed : frame.WellFormed thread)
    (failed : action.attempt frame = (.error fault, later)) :
    ReadOn (if instruction.takesTop frame.cursor then (Frame.pop.attempt frame).2 else frame)
      later := by
  cases instruction <;> simp only [aloneAction?, Option.some.injEq, reduceCtorEq] at concerned <;>
    subst concerned
  case nop => cases failed
  case load | loadShort =>
    rw [atomic_load _ _ failed]
    exact ReadOn.refl frame
  case store | storeShort =>
    rw [store_of_error failed]
    exact ReadOn.refl _
  case shuffle =>
    rw [shuffle_of_error wellFormed.stack_wellFormed failed]
    exact ReadOn.refl frame
  case iinc =>
    rw [atomic_increment _ _ failed]
    exact ReadOn.refl frame
  case ret =>
    rw [atomic_returnTo _ failed]
    exact ReadOn.refl frame
  case wide => exact executeWide_of_error failed
  case invokedynamic | reserved =>
    cases failed
    exact ReadOn.refl frame

/-- An instruction that fails leaves the heap as it was, and the frame too, or without its top
value if the instruction takes it first. -/
theorem execute_of_error {thread : ThreadId} {instruction : Instruction} {frame : Frame}
    {heap : Heap} {fault : Fault} {later : Frame × Heap} (wellFormed : frame.WellFormed thread)
    (inside : frame.pc < frame.cursor.code.size)
    (failed : (execute instruction).attempt (frame, heap) = (.error fault, later)) :
    later.2 = heap ∧
      ReadOn (if instruction.takesTop frame.cursor then (Frame.pop.attempt frame).2 else frame)
        later.1 := by
  cases concerned : aloneAction? instruction with
  | some action =>
    rw [attempt_execute_of_aloneAction? concerned, Prod.mk.injEq] at failed
    obtain ⟨refused, rfl⟩ := failed
    have alone : action.attempt frame = (.error fault, (action.attempt frame).2) :=
      Prod.ext (Except.error_of_map_eq_error refused) rfl
    exact ⟨rfl, aloneAction_of_error concerned wellFormed alone⟩
  | none =>
    cases instruction <;> simp only [aloneAction?, reduceCtorEq] at concerned
    case monitorenter =>
      rw [attempt_execute_monitorenter] at failed
      rw [enterMonitor_of_error wellFormed inside failed]
      exact ⟨rfl, ReadOn.refl _⟩
    case monitorexit =>
      rw [attempt_execute_monitorexit] at failed
      rw [exitMonitor_of_error failed]
      exact ⟨rfl, ReadOn.refl _⟩

/-- A step that fails has read an instruction or at least its first byte; it leaves the heap as
it was, and of the frame what the reading and the instruction leave. -/
theorem step_of_error {thread : ThreadId} {frame : Frame} {heap : Heap} {fault : Fault}
    {later : Frame × Heap} (wellFormed : frame.WellFormed thread)
    (failed : step.attempt (frame, heap) = (.error fault, later)) :
    later.2 = heap ∧ ∃ cursor, cursor.code = frame.cursor.code ∧
      frame.cursor.position < cursor.position ∧
      ReadOn { (if frame.takesTop then (Frame.pop.attempt frame).2 else frame) with
        pc := frame.cursor.position, cursor } later.1 := by
  cases more : frame.isExhausted with
  | true => cases (attempt_step_of_exhausted more heap).symm.trans failed
  | false =>
    have hasMore : frame.cursor.hasMore := by simpa [isExhausted] using more
    have inside : frame.cursor.position < frame.cursor.code.size := by
      simpa [Cursor.hasMore] using hasMore
    obtain ⟨sameCode, onward, notPast⟩ := Instruction.read_advances hasMore
    unfold takesTop
    rcases read : Reader.attempt Instruction.read frame.cursor with ⟨_ | instruction, cursor⟩ <;>
      simp only [read] at sameCode onward notPast
    · rw [attempt_step_of_more more, Action.attempt_bind, Action.attempt_onFirst,
        attempt_readInstruction, read] at failed
      cases failed
      exact ⟨rfl, cursor, sameCode, onward, ReadOn.refl _⟩
    · rw [attempt_step_of_read read] at failed
      have ready : Frame.WellFormed thread { frame with pc := frame.cursor.position, cursor } :=
        ⟨wellFormed.thread_eq, wellFormed.stack_wellFormed, by rwa [sameCode]⟩
      obtain ⟨sameHeap, moved⟩ := execute_of_error ready (by rwa [sameCode]) failed
      refine ⟨sameHeap, cursor, sameCode, onward, ?_⟩
      cases taken : instruction.takesTop cursor <;> simp only [taken] at moved ⊢ <;> exact moved

/-- A step that fails remembers where it began and has read a byte at least. -/
theorem cursor_of_step_error {thread : ThreadId} {frame : Frame} {heap : Heap} {fault : Fault}
    {later : Frame × Heap} (wellFormed : frame.WellFormed thread)
    (failed : step.attempt (frame, heap) = (.error fault, later)) :
    later.1.pc = frame.cursor.position ∧ later.1.cursor.code = frame.cursor.code ∧
      frame.cursor.position < later.1.cursor.position ∧
      later.1.cursor.position ≤ frame.cursor.code.size := by
  have kept := keeps_step_wellFormed (frame, heap) wellFormed
  obtain ⟨-, cursor, sameCode, onward, moved⟩ := step_of_error wellFormed failed
  have code : later.1.cursor.code = frame.cursor.code := moved.code_eq.trans sameCode
  rw [failed] at kept
  exact ⟨moved.pc_eq, code, Nat.lt_of_lt_of_le onward moved.position_le, code ▸ kept.cursor_le⟩

/-- A step that fails leaves the heap and the local variables as they were, and the operand stack
too, except that a store and a monitor instruction whose bytes could all be read have taken the
top value off it if there was one. The frame remembers where the instruction starts, and its
cursor stands behind that but not beyond the end of the code. -/
theorem failed_step_leaves {frame later : Frame} (reachable : frame.Reachable) {heap left : Heap}
    {fault : Fault} (failed : step.attempt (frame, heap) = (.error fault, (later, left))) :
    left = heap ∧ later.locals = frame.locals ∧
    (frame.takesTop = false → later.stack = frame.stack) ∧
    (frame.takesTop = true →
      later.stack = ⟨frame.stack.values.tail, totalSlots frame.stack.values.tail,
        frame.stack.capacity⟩) ∧
    later.thread = frame.thread ∧ later.pc = frame.cursor.position ∧
    later.cursor.code = frame.cursor.code ∧
    frame.cursor.position < later.cursor.position ∧
    later.cursor.position ≤ frame.cursor.code.size := by
  have wellFormed := reachable.wellFormed
  have kept := keeps_step_wellFormed (frame, heap) wellFormed
  rw [failed] at kept
  obtain ⟨sameHeap, cursor, sameCode, onward, moved⟩ := step_of_error wellFormed failed
  have sameStack : (Frame.pop.attempt frame).2.stack = ⟨frame.stack.values.tail,
      totalSlots frame.stack.values.tail, frame.stack.capacity⟩ :=
    OperandStack.stack_of_pop wellFormed.stack_wellFormed
  have code : later.cursor.code = frame.cursor.code := moved.code_eq.trans sameCode
  have notPast : later.cursor.position ≤ frame.cursor.code.size := by
    rw [← code]
    exact kept.cursor_le
  refine ⟨sameHeap, ?_, fun keeps => ?_, fun takes => ?_, ?_, moved.pc_eq, code,
    Nat.lt_of_lt_of_le onward moved.position_le, notPast⟩
  · rw [moved.locals_eq]
    split <;> rfl
  · rw [moved.stack_eq, keeps]
    rfl
  · rw [moved.stack_eq, takes]
    exact sameStack
  · rw [moved.thread_eq]
    split <;> rfl

/-- A method of one instruction, a wide store of a double. -/
def wideStore : Method :=
  ⟨#[0xc4, 0x39, 0x00, 0x05], 2, 6⟩

/-- A frame of that method whose operand stack holds an int. -/
def beforeWideStore : Frame :=
  ⟨⟨7⟩, 0, .start wideStore.code, .blank 6, ⟨[.int 1], 1, 2⟩⟩

theorem failed_wideStore_leaves :
    beforeWideStore.Reachable ∧ beforeWideStore.takesTop = true ∧
    ∃ later, step.attempt (beforeWideStore, .empty 1) = (.error .typeMismatch, (later, .empty 1)) ∧
      later.stack = ⟨[], 0, 2⟩ ∧ later.locals = .blank 6 ∧ later.pc = 0 ∧
      0 < later.cursor.position ∧ later.cursor.position ≤ 4 := by
  have created : (create ⟨7⟩ wideStore []).attempt () =
      (.ok ⟨⟨7⟩, 0, .start wideStore.code, .blank 6, .empty 2⟩, ()) := rfl
  have reachable : beforeWideStore.Reachable := (Reachable.create created).push (.int 1)
  have takes : beforeWideStore.takesTop = true := rfl
  have failed : step.attempt (beforeWideStore, .empty 1) = (.error .typeMismatch,
      ({ beforeWideStore with cursor := ⟨wideStore.code, 4⟩, stack := .empty 2 }, .empty 1)) := rfl
  obtain ⟨-, sameLocals, -, taken, -, start, -, onward, notPast⟩ :=
    failed_step_leaves reachable failed
  exact ⟨reachable, takes, _, failed, taken takes, sameLocals, start, onward, notPast⟩

end Frame

end BytecodeMachine
