/-
This file says with which faults a step of a frame can fail. Running out of
memory is a matter of allocating and a deadlock one of all threads together, so
neither of them arises in a step. Nor does the reader refuse a jump: where an
instruction goes to is compared with the length of the code before, and what
lies outside is a fault of the instruction.
-/

import BytecodeMachine.Proofs.Frame.Invariant

namespace BytecodeMachine

/-- Whether a step can fail with a fault. -/
def Fault.arisesInStep : Fault → Bool
  | outOfMemory | deadlock _ | unreadableCode (.invalidJump _) => false
  | _ => true

/-! ### Reading -/

/-- The reader fails only for want of code or for a byte that is no op code. -/
def Reader.NeverJumps {α : Type} (reader : Reader α) : Prop :=
  ∀ ⦃cursor fault⦄, (reader.attempt cursor).1 = .error fault →
    (Fault.unreadableCode fault).arisesInStep

namespace Reader.NeverJumps

variable {α β : Type}

theorem pure (value : α) : NeverJumps (Pure.pure value) := nofun

theorem bind {first : Reader α} {next : α → Reader β} (raises : first.NeverJumps)
    (later : ∀ value, (next value).NeverJumps) : NeverJumps (first >>= next) := by
  intro cursor fault failed
  rw [Reader.attempt_bind] at failed
  rcases outcome : first.attempt cursor with ⟨_ | value, reached⟩ <;> rw [outcome] at failed
  · cases failed
    exact raises (congrArg Prod.fst outcome)
  · exact later value failed

theorem readU8 : NeverJumps Cursor.readU8 := by
  intro cursor fault failed
  rw [Cursor.attempt_readU8] at failed
  split at failed <;> cases failed
  rfl

theorem readU16 : NeverJumps Cursor.readU16 := by
  intro cursor fault failed
  rw [Cursor.attempt_readU16] at failed
  split at failed <;> cases failed
  rfl

theorem readI8 : NeverJumps Cursor.readI8 :=
  readU8.bind fun _ => pure _

theorem readI16 : NeverJumps Cursor.readI16 :=
  readU16.bind fun _ => pure _

theorem readOpcode : NeverJumps Opcode.read := by
  refine readU8.bind fun byte => ?_
  cases Opcode.ofByte? byte with
  | some opcode => exact pure opcode
  | none =>
    rintro cursor _ ⟨⟩
    rfl

theorem readOperands (opcode : Opcode) : opcode.readOperands.NeverJumps := by
  cases opcode
  case load | store | ret => exact readU8.bind fun _ => pure _
  case iinc => exact readU8.bind fun _ => readI8.bind fun _ => pure _
  case invokedynamic => exact readU16.bind fun _ => readU16.bind fun _ => pure _
  all_goals exact pure _

theorem readInstruction : NeverJumps Instruction.read :=
  readOpcode.bind readOperands

end Reader.NeverJumps

/-! ### Operand stack and local variables -/

namespace OperandStack

theorem raises_pop : pop.RaisesOnly Fault.arisesInStep := by
  refine Action.RaisesOnly.get.bind fun stack => ?_
  split
  · exact Action.RaisesOnly.fail rfl
  · exact (Action.RaisesOnly.set _).bind fun _ =>
      (Action.RaisesOnly.report _).bind fun _ => Action.RaisesOnly.pure _

theorem raises_reserve (slots : Nat) : (reserve slots).RaisesOnly Fault.arisesInStep := by
  refine Action.RaisesOnly.get.bind fun stack => ?_
  split
  · exact Action.RaisesOnly.pure _
  · exact Action.RaisesOnly.fail rfl

theorem raises_push (value : Value) : (push value).RaisesOnly Fault.arisesInStep :=
  (raises_reserve _).bind fun _ => Action.RaisesOnly.get.bind fun _ =>
    (Action.RaisesOnly.set _).bind fun _ => Action.RaisesOnly.report _

theorem raises_popMany (count : Nat) : (popMany count).RaisesOnly Fault.arisesInStep := by
  induction count with
  | zero => exact Action.RaisesOnly.pure _
  | succ count inductionHypothesis =>
    exact raises_pop.bind fun _ => inductionHypothesis.bind fun _ => Action.RaisesOnly.pure _

theorem raises_pushAll (values : List Value) :
    (pushAll values).RaisesOnly Fault.arisesInStep := by
  induction values with
  | nil => exact Action.RaisesOnly.pure _
  | cons value later inductionHypothesis =>
    exact (raises_push value).bind fun _ => inductionHypothesis

theorem raises_shuffle (operation : Shuffle) :
    (shuffle operation).RaisesOnly Fault.arisesInStep := by
  refine Action.RaisesOnly.get.bind fun stack => ?_
  split
  · refine Action.RaisesOnly.fail ?_
    unfold Shuffle.mismatch
    split <;> rfl
  · exact (raises_reserve _).bind fun _ => (raises_popMany _).bind fun _ => raises_pushAll _

end OperandStack

namespace Locals

theorem raises_set (index : Nat) (value : Value) :
    (set index value).RaisesOnly Fault.arisesInStep := by
  refine Action.RaisesOnly.get.bind fun locals => ?_
  split
  · exact (Action.RaisesOnly.set _).bind fun _ => Action.RaisesOnly.report _
  · exact Action.RaisesOnly.fail rfl

theorem arisesInStep_of_get {locals : Locals} {index : Nat} {fault : Fault}
    (failed : locals.get index = .error fault) : fault.arisesInStep := by
  unfold get at failed
  split at failed <;> cases failed <;> rfl

end Locals

/-! ### Monitors -/

theorem Monitor.raises_enter (thread : ThreadId) :
    (enter thread).RaisesOnly Fault.arisesInStep := by
  refine Action.RaisesOnly.get.bind fun monitor => ?_
  split
  · exact (Action.RaisesOnly.set _).bind fun _ => Action.RaisesOnly.pure _
  · split
    · split
      · exact (Action.RaisesOnly.set _).bind fun _ => Action.RaisesOnly.pure _
      · exact Action.RaisesOnly.fail rfl
    · exact Action.RaisesOnly.pure _

theorem Monitor.raises_exit (thread : ThreadId) :
    (exit thread).RaisesOnly Fault.arisesInStep := by
  refine Action.RaisesOnly.get.bind fun monitor => ?_
  split
  · exact Action.RaisesOnly.fail rfl
  · split
    · exact (Action.RaisesOnly.set _).bind fun _ => Action.RaisesOnly.pure _
    · exact Action.RaisesOnly.fail rfl

namespace Heap

theorem raises_onMonitor {α : Type} {action : HeapObject → Action (Option Monitor) α}
    (raises : ∀ object, (action object).RaisesOnly Fault.arisesInStep) (reference : ObjectRef) :
    (onMonitor reference action).RaisesOnly Fault.arisesInStep := by
  refine Action.RaisesOnly.bind (Action.RaisesOnly.inspect fun heap fault dangling => ?_)
    fun object => (raises object).zoom
  unfold object at dangling
  split at dangling <;> cases dangling
  rfl

theorem raises_enter (reference : ObjectRef) (thread : ThreadId) :
    (enter reference thread).RaisesOnly Fault.arisesInStep := by
  refine raises_onMonitor (fun object => ?_) reference
  refine (Monitor.raises_enter thread).bind fun entry => ?_
  cases entry <;> exact (Action.RaisesOnly.report _).bind fun _ => Action.RaisesOnly.pure _

theorem raises_exit (reference : ObjectRef) (thread : ThreadId) :
    (exit reference thread).RaisesOnly Fault.arisesInStep := by
  refine raises_onMonitor (fun object => ?_) reference
  refine (Monitor.raises_exit thread).bind fun remaining => ?_
  split <;> exact Action.RaisesOnly.report _

end Heap

/-! ### Instructions and steps -/

namespace Frame

theorem raises_reading {α : Type} {reader : Reader α} (raises : reader.NeverJumps) :
    (reading reader).RaisesOnly Fault.arisesInStep := by
  intro frame fault failed
  rcases outcome : reader.attempt frame.cursor with ⟨short | value, cursor⟩ <;>
    simp only [Action.attempt, Action.run, reading, outcome] at failed <;> cases failed
  exact raises (congrArg Prod.fst outcome)

theorem raises_pop : pop.RaisesOnly Fault.arisesInStep :=
  OperandStack.raises_pop.zoom

theorem raises_push (value : Value) : (push value).RaisesOnly Fault.arisesInStep :=
  (OperandStack.raises_push value).zoom

theorem raises_getLocal (index : Nat) : (getLocal index).RaisesOnly Fault.arisesInStep :=
  Action.RaisesOnly.inspect fun _ _ => Locals.arisesInStep_of_get

theorem raises_setLocal (index : Nat) (value : Value) :
    (setLocal index value).RaisesOnly Fault.arisesInStep :=
  (Locals.raises_set index value).zoom

/-- The reader could refuse the jump, but where it would, the jump is not tried. -/
theorem raises_goto (target : Nat) : (goto target).RaisesOnly Fault.arisesInStep := by
  intro frame fault failed
  rw [attempt_goto] at failed
  split at failed <;> cases failed
  rfl

theorem raises_load (kind : LocalKind) (index : Nat) :
    (load kind index).RaisesOnly Fault.arisesInStep := by
  refine (raises_getLocal index).bind fun value => ?_
  split
  · exact raises_push value
  · exact Action.RaisesOnly.fail rfl

theorem raises_store (kind : LocalKind) (index : Nat) :
    (store kind index).RaisesOnly Fault.arisesInStep := by
  refine raises_pop.bind fun value => ?_
  split
  · exact raises_setLocal index value
  · exact Action.RaisesOnly.fail rfl

theorem raises_increment (index : Nat) (constant : Int32) :
    (increment index constant).RaisesOnly Fault.arisesInStep := by
  refine (raises_getLocal index).bind fun value => ?_
  split
  · exact raises_setLocal _ _
  · exact Action.RaisesOnly.fail rfl

theorem raises_returnTo (index : Nat) : (returnTo index).RaisesOnly Fault.arisesInStep := by
  refine (raises_getLocal index).bind fun value => ?_
  split
  · exact raises_goto _
  · exact Action.RaisesOnly.fail rfl

theorem raises_executeWide : executeWide.RaisesOnly Fault.arisesInStep := by
  refine (raises_reading Reader.NeverJumps.readU8).bind fun byte => ?_
  split
  · exact Action.RaisesOnly.fail rfl
  · refine (raises_reading Reader.NeverJumps.readU16).bind fun index => ?_
    split
    · exact raises_load _ _
    · exact raises_store _ _
    · exact (raises_reading Reader.NeverJumps.readI16).bind fun _ => raises_increment _ _
    · exact raises_returnTo _

theorem raises_popObject : popObject.RaisesOnly Fault.arisesInStep := by
  refine raises_pop.bind fun value => ?_
  split
  · exact Action.RaisesOnly.pure _
  · exact Action.RaisesOnly.fail rfl
  · exact Action.RaisesOnly.fail rfl

theorem raises_enterMonitor : enterMonitor.RaisesOnly Fault.arisesInStep := by
  refine raises_popObject.zoom.bind fun reference => Action.RaisesOnly.get.bind fun state => ?_
  refine (Heap.raises_enter _ _).zoom.bind fun entry => ?_
  split
  · exact Action.RaisesOnly.pure _
  · exact (raises_push _).zoom.bind fun _ => (raises_goto _).zoom.bind fun _ =>
      Action.RaisesOnly.pure _

theorem raises_exitMonitor : exitMonitor.RaisesOnly Fault.arisesInStep :=
  raises_popObject.zoom.bind fun _ => Action.RaisesOnly.get.bind fun _ =>
    (Heap.raises_exit _ _).zoom.bind fun _ => Action.RaisesOnly.pure _

theorem raises_alone {action : Action Frame Unit} (raises : action.RaisesOnly Fault.arisesInStep) :
    (alone action).RaisesOnly Fault.arisesInStep :=
  raises.zoom.bind fun _ => Action.RaisesOnly.pure _

theorem raises_execute (instruction : Instruction) :
    (execute instruction).RaisesOnly Fault.arisesInStep := by
  refine Action.RaisesOnly.get.bind fun state => (Action.RaisesOnly.report _).bind fun _ => ?_
  cases instruction with
  | nop => exact Action.RaisesOnly.pure _
  | load | loadShort => exact raises_alone (raises_load _ _)
  | store | storeShort => exact raises_alone (raises_store _ _)
  | shuffle operation => exact raises_alone (OperandStack.raises_shuffle operation).zoom
  | iinc => exact raises_alone (raises_increment _ _)
  | ret => exact raises_alone (raises_returnTo _)
  | wide => exact raises_alone raises_executeWide
  | monitorenter => exact raises_enterMonitor
  | monitorexit => exact raises_exitMonitor
  | invokedynamic | reserved => exact Action.RaisesOnly.fail rfl

/-- A step raises neither a deadlock nor a lack of memory, and the reader refuses it no jump. -/
theorem raises_step : step.RaisesOnly Fault.arisesInStep := by
  refine Action.RaisesOnly.get.bind fun state => ?_
  dsimp only
  split
  · exact Action.RaisesOnly.pure _
  · refine Action.RaisesOnly.bind (Action.RaisesOnly.zoom ?_) raises_execute
    exact Action.RaisesOnly.bind (fun _ _ => nofun) fun _ =>
      raises_reading Reader.NeverJumps.readInstruction

end Frame

end BytecodeMachine
