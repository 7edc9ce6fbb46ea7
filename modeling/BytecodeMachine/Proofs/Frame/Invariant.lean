/-
This file says when a property of frames is kept by the instructions. It is
enough that the actions of which all instructions consist keep it: reading and
jumping in the code, and taking, putting and finding values on the operand
stack and in the local variables. A property may also bound the values in a
frame; then the actions only have to keep it for values within the bounds.
-/

import BytecodeMachine.Code.Sweep
import BytecodeMachine.Frame.Execute
import BytecodeMachine.Proofs.Action

namespace BytecodeMachine

theorem Opcode.forward_read : Reader.Forward Opcode.read := by
  refine Reader.Forward.bind Cursor.forward_readU8 fun byte => ?_
  cases Opcode.ofByte? byte with
  | none => exact Reader.Forward.throw _
  | some opcode => exact Reader.Forward.pure opcode

/-! ### The values of a frame -/

/-- The values that may lie on the operand stack of a frame and those that may start at each of
its local indices, closed under what loads, stores and increments make of them. -/
structure Allowance where
  onStack : Value → Prop
  inLocals : Nat → Value → Prop
  loaded : ∀ {kind : LocalKind} {index : Nat} {value : Value},
    inLocals index value → kind.loads value → onStack value
  stored : ∀ {kind : LocalKind} {index : Nat} {value : Value},
    onStack value → kind.stores value → inLocals index value
  incremented : ∀ {index : Nat} {number : Int32} (constant : Int32),
    inLocals index (.int number) → inLocals index (.int (number + constant))

/-- Every value may be anywhere. -/
def Allowance.anything : Allowance where
  onStack _ := True
  inLocals _ _ := True
  loaded _ _ := trivial
  stored _ _ := trivial
  incremented _ _ := trivial

namespace Frame

variable {α : Type}

/-! ### Actions on the code -/

theorem attempt_reading (reader : Reader α) (frame : Frame) :
    (reading reader).attempt frame =
      ((reader.attempt frame.cursor).1.mapError .unreadableCode,
        { frame with cursor := (reader.attempt frame.cursor).2 }) := by
  simp only [Action.attempt, Action.run, reading]
  rcases reader.attempt frame.cursor with ⟨_ | value, cursor⟩ <;> rfl

/-- An offset inside the code is one to which the reader jumps, so a jump fails in one way only. -/
theorem attempt_goto (target : Nat) (frame : Frame) :
    (goto target).attempt frame =
      if target < frame.cursor.code.size then
        (.ok (), { frame with pc := target, cursor := { frame.cursor with position := target } })
      else (.error (.jumpOutsideCode target frame.cursor.code.size), frame) := by
  rw [goto, Action.attempt_bind_of_ok _ (Action.attempt_get frame)]
  by_cases inside : target < frame.cursor.code.size
  · have jumped : (reading (Cursor.jumpTo target)).attempt frame =
        (.ok (), { frame with cursor := { frame.cursor with position := target } }) := by
      rw [attempt_reading, Cursor.attempt_jumpTo, if_pos (Nat.le_of_lt inside)]
      rfl
    simp only [if_pos inside]
    rw [Action.attempt_bind_of_ok _ jumped, Action.attempt_modify]
  · simp only [if_neg inside]
    rfl

/-! ### What the parts of an instruction keep -/

/-- A property of the frames of a thread is an invariant when every part of an instruction keeps
it, under which the frame holds only values that are allowed. -/
structure Invariant (thread : ThreadId) (allowance : Allowance) (property : Frame → Prop) :
    Prop where
  thread_eq : ∀ {frame}, property frame → frame.thread = thread
  remembers : ∀ {frame} (pc : Nat), property frame → property { frame with pc }
  keeps_reading : ∀ {α : Type} {reader : Reader α}, reader.Forward →
    (reading reader).Keeps property
  keeps_goto : ∀ target, (goto target).Keeps property
  keeps_pop : pop.Keeps property
  gives_pop : pop.Gives property allowance.onStack
  keeps_push : ∀ {value}, allowance.onStack value → (push value).Keeps property
  keeps_shuffle : ∀ operation, (onStack (OperandStack.shuffle operation)).Keeps property
  gives_getLocal : ∀ index, (getLocal index).Gives property (allowance.inLocals index)
  keeps_setLocal : ∀ {index value}, allowance.inLocals index value →
    (setLocal index value).Keeps property

namespace Invariant

variable {thread : ThreadId} {allowance : Allowance} {property : Frame → Prop}

theorem keeps_load (invariant : Invariant thread allowance property) (kind : LocalKind)
    (index : Nat) : (load kind index).Keeps property := by
  refine Action.Keeps.bind_of_gives (Action.Keeps.inspect _) (invariant.gives_getLocal index)
    fun value here => ?_
  split
  · next fitting => exact invariant.keeps_push (allowance.loaded here fitting)
  · exact Action.Keeps.fail _

theorem keeps_store (invariant : Invariant thread allowance property) (kind : LocalKind)
    (index : Nat) : (store kind index).Keeps property := by
  refine Action.Keeps.bind_of_gives invariant.keeps_pop invariant.gives_pop fun value here => ?_
  split
  · next fitting => exact invariant.keeps_setLocal (allowance.stored here fitting)
  · exact Action.Keeps.fail _

theorem keeps_increment (invariant : Invariant thread allowance property) (index : Nat)
    (constant : Int32) : (increment index constant).Keeps property := by
  refine Action.Keeps.bind_of_gives (Action.Keeps.inspect _) (invariant.gives_getLocal index)
    fun value here => ?_
  cases value
  case int number => exact invariant.keeps_setLocal (allowance.incremented constant here)
  all_goals exact Action.Keeps.fail _

theorem keeps_returnTo (invariant : Invariant thread allowance property) (index : Nat) :
    (returnTo index).Keeps property := by
  refine Action.Keeps.bind (Action.Keeps.inspect _) fun value => ?_
  cases value
  case returnAddress offset => exact invariant.keeps_goto _
  all_goals exact Action.Keeps.fail _

theorem keeps_executeWide (invariant : Invariant thread allowance property) :
    executeWide.Keeps property := by
  refine (invariant.keeps_reading Cursor.forward_readU8).bind fun byte => ?_
  cases (Opcode.ofByte? byte).bind Opcode.widen? with
  | none => exact Action.Keeps.fail _
  | some form =>
    refine (invariant.keeps_reading Cursor.forward_readU16).bind fun index => ?_
    cases form with
    | load kind => exact invariant.keeps_load kind _
    | store kind => exact invariant.keeps_store kind _
    | iinc =>
      exact (invariant.keeps_reading Cursor.forward_readI16).bind fun _ =>
        invariant.keeps_increment _ _
    | ret => exact invariant.keeps_returnTo _

theorem keeps_popObject (invariant : Invariant thread allowance property) :
    popObject.Keeps property := by
  refine invariant.keeps_pop.bind fun value => ?_
  cases value
  case reference object => exact Action.Keeps.pure _
  all_goals exact Action.Keeps.fail _

/-- A reference that is taken off the operand stack was allowed there. -/
theorem gives_popObject (invariant : Invariant thread allowance property) :
    popObject.Gives property fun reference => allowance.onStack (.reference reference) := by
  refine Action.Gives.bind invariant.keeps_pop invariant.gives_pop fun value here => ?_
  cases value
  case reference object => exact Action.Gives.pure here
  all_goals exact Action.Gives.fail _

theorem keeps_readInstruction (invariant : Invariant thread allowance property) :
    readInstruction.Keeps property := by
  have forward : Reader.Forward Instruction.read :=
    Opcode.forward_read.bind fun opcode => opcode.forward_readOperands
  exact Action.Keeps.bind (fun _ holds => invariant.remembers _ holds) fun _ =>
    invariant.keeps_reading forward

end Invariant

/-! ### Instructions that concern the frame alone -/

/-- What an instruction does to the frame, unless it is one of the two that touch the heap. -/
def aloneAction? : Instruction → Option (Action Frame Unit)
  | .nop => some (return ())
  | .load kind index => some (load kind index.toNat)
  | .loadShort kind index => some (load kind index.val)
  | .store kind index => some (store kind index.toNat)
  | .storeShort kind index => some (store kind index.val)
  | .shuffle operation => some (onStack (OperandStack.shuffle operation))
  | .iinc index constant => some (increment index.toNat constant.toInt32)
  | .ret index => some (returnTo index.toNat)
  | .wide => some executeWide
  | .invokedynamic callSite => some (Action.fail (.callSiteLinkage callSite))
  | .reserved code => some do
      let frame ← get
      Action.fail (.reservedInstruction code frame.pc)
  | .monitorenter | .monitorexit => none

theorem Invariant.keeps_of_aloneAction? {thread : ThreadId} {allowance : Allowance}
    {property : Frame → Prop} (invariant : Invariant thread allowance property)
    {instruction : Instruction} {action : Action Frame Unit}
    (concerned : aloneAction? instruction = some action) : action.Keeps property := by
  cases instruction <;> simp only [aloneAction?, Option.some.injEq, reduceCtorEq] at concerned <;>
    subst concerned
  case nop => exact Action.Keeps.pure _
  case load | loadShort => exact invariant.keeps_load _ _
  case store | storeShort => exact invariant.keeps_store _ _
  case shuffle operation => exact invariant.keeps_shuffle operation
  case iinc => exact invariant.keeps_increment _ _
  case ret => exact invariant.keeps_returnTo _
  case wide => exact invariant.keeps_executeWide
  case invokedynamic => exact Action.Keeps.fail _
  case reserved => exact Action.Keeps.bind Action.Keeps.get fun _ => Action.Keeps.fail _

/-- The heap has no part in an instruction that concerns the frame alone. -/
theorem attempt_execute_of_aloneAction? {instruction : Instruction} {action : Action Frame Unit}
    (concerned : aloneAction? instruction = some action) (frame : Frame) (heap : Heap) :
    (execute instruction).attempt (frame, heap) =
      ((action.attempt frame).1.map fun _ => .proceed, ((action.attempt frame).2, heap)) := by
  have alone_eq (action : Action Frame Unit) : (alone action).attempt (frame, heap) =
      ((action.attempt frame).1.map fun _ => .proceed, ((action.attempt frame).2, heap)) := by
    rw [alone, Action.attempt_bind, Action.attempt_onFirst]
    rcases action.attempt frame with ⟨_ | value, reached⟩ <;> rfl
  rw [execute, Action.attempt_bind_of_ok _ (Action.attempt_get _),
    Action.attempt_bind_of_ok _ (Action.attempt_report _ _)]
  cases instruction <;> simp only [aloneAction?, Option.some.injEq, reduceCtorEq] at concerned <;>
    subst concerned
  case nop | invokedynamic | reserved => rfl
  all_goals exact alone_eq _

end Frame

end BytecodeMachine
