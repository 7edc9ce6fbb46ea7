/-
This file says what the instructions do. Only the two monitor instructions
touch the heap, and all others act on the frame alone. The narrow and the wide
form of an instruction differ only in where their operands are read; what is
done with them is one action.
-/

import BytecodeMachine.Frame
import BytecodeMachine.Heap

namespace BytecodeMachine

/-- What a thread is to do after a step. -/
inductive Signal
  /-- The instruction is done, the next one may follow. -/
  | proceed
  /-- The monitor to be entered is held by another thread; the instruction will be tried
  again. -/
  | yield
  /-- There is no instruction left. -/
  | endOfCode
deriving DecidableEq

/-! ### Local variables -/

namespace LocalKind

/-- The values that a load of the kind may read: a reference load reads no return address. -/
def loads : LocalKind → Value → Bool
  | int, .int _ | long, .long _ | float, .float _ | double, .double _ => true
  | reference, value => value.isReferenceOrNull
  | _, _ => false

/-- The values that a store of the kind may write: a reference store also writes return
addresses. -/
def stores : LocalKind → Value → Bool
  | reference, .returnAddress _ => true
  | kind, value => kind.loads value

end LocalKind

namespace Frame

/-- Copies a local variable to the operand stack. -/
def load (kind : LocalKind) (index : Nat) : Action Frame Unit := do
  let value ← getLocal index
  if kind.loads value then push value else Action.fail .typeMismatch

/-- Moves the top of the operand stack to a local variable. -/
def store (kind : LocalKind) (index : Nat) : Action Frame Unit := do
  let value ← pop
  if kind.stores value then setLocal index value else Action.fail .typeMismatch

/-- Adds a constant to a local variable that holds an integer, modulo two to the 32. -/
def increment (index : Nat) (constant : Int32) : Action Frame Unit := do
  match ← getLocal index with
  | .int number => setLocal index (.int (number + constant))
  | _ => Action.fail .typeMismatch

/-- Goes on at the offset saved in a local variable. -/
def returnTo (index : Nat) : Action Frame Unit := do
  match ← getLocal index with
  | .returnAddress offset => goto offset.toNat
  | _ => Action.fail .typeMismatch

/-- Executes the instruction behind a wide prefix, whose operands are twice as wide. -/
def executeWide : Action Frame Unit := do
  let byte ← reading Cursor.readU8
  match (Opcode.ofByte? byte).bind Opcode.widen? with
  | none => Action.fail (.notWidenable byte)
  | some form =>
    let index ← reading Cursor.readU16
    match form with
    | .load kind => load kind index.toNat
    | .store kind => store kind index.toNat
    | .iinc =>
      let constant ← reading Cursor.readI16
      increment index.toNat constant.toInt32
    | .ret => returnTo index.toNat

/-! ### Monitors -/

/-- Takes a reference to an object off the operand stack. -/
def popObject : Action Frame ObjectRef := do
  match ← pop with
  | .reference object => return object
  | .null => Action.fail .nullReference
  | _ => Action.fail .typeMismatch

/-- Enters the monitor of the object on top of the stack. If another thread holds it, the frame
is brought back to where it was, so that the instruction can be tried again. -/
def enterMonitor : Action (Frame × Heap) Signal := do
  let reference ← Action.onFirst popObject
  let frame := (← get).1
  match ← Action.onSecond (Heap.enter reference frame.thread) with
  | .acquired _ => return .proceed
  | .contended _ =>
    Action.onFirst (push (.reference reference))
    Action.onFirst (goto frame.pc)
    return .yield

/-- Leaves the monitor of the object on top of the stack. -/
def exitMonitor : Action (Frame × Heap) Signal := do
  let reference ← Action.onFirst popObject
  let frame := (← get).1
  Action.onSecond (Heap.exit reference frame.thread)
  return .proceed

/-! ### Steps -/

/-- Performs an action that concerns the frame alone and lets the next instruction follow. -/
def alone (action : Action Frame Unit) : Action (Frame × Heap) Signal := do
  Action.onFirst action
  return .proceed

/-- Executes one instruction. -/
def execute (instruction : Instruction) : Action (Frame × Heap) Signal := do
  let frame := (← get).1
  Action.report (.executing frame.thread instruction frame.pc)
  match instruction with
  | .nop => return .proceed
  | .load kind index => alone (load kind index.toNat)
  | .loadShort kind index => alone (load kind index.val)
  | .store kind index => alone (store kind index.toNat)
  | .storeShort kind index => alone (store kind index.val)
  | .shuffle operation => alone (onStack (OperandStack.shuffle operation))
  | .iinc index constant => alone (increment index.toNat constant.toInt32)
  | .ret index => alone (returnTo index.toNat)
  | .wide => alone executeWide
  | .monitorenter => enterMonitor
  | .monitorexit => exitMonitor
  | .invokedynamic callSite => Action.fail (.callSiteLinkage callSite)
  | .reserved code => Action.fail (.reservedInstruction code frame.pc)

/-- Reads the next instruction and executes it; at the end of the code nothing happens. -/
def step : Action (Frame × Heap) Signal := do
  let frame := (← get).1
  if frame.isExhausted then return .endOfCode
  else
    let instruction ← Action.onFirst readInstruction
    execute instruction

end Frame

end BytecodeMachine
