/-
This file holds the frames in which methods run. A frame belongs to a thread
and keeps the place in its code, its local variables and its operand stack; the
parts of a frame are used through the actions that stand here.
-/

import BytecodeMachine.Code.Instruction
import BytecodeMachine.Locals
import BytecodeMachine.OperandStack.Form

namespace BytecodeMachine

variable {σ α : Type}

/-- What is needed of a method to run it: its code, and the sizes of its operand stack and of
its table of local variables, in slots. -/
structure Method where
  code : Array UInt8
  maxStack : Nat
  maxLocals : Nat
deriving DecidableEq

/-- A frame: the thread that runs it, the offset of the instruction being executed, the cursor
behind that instruction, the local variables and the operand stack. -/
structure Frame where
  thread : ThreadId
  pc : Nat
  cursor : Cursor
  locals : Locals
  stack : OperandStack
deriving DecidableEq

namespace Frame

/-- A frame at the beginning of a method, with the arguments in its first local variables. -/
def create (thread : ThreadId) (method : Method) (arguments : List Value) : Action σ Frame := do
  let locals ← Locals.create method.maxLocals arguments
  return ⟨thread, 0, .start method.code, locals, .empty method.maxStack⟩

/-- Whether no code is left to be read. -/
def isExhausted (frame : Frame) : Bool :=
  !frame.cursor.hasMore

/-! ### The parts of a frame in use -/

/-- Performs an action on the operand stack. -/
def onStack (action : Action OperandStack α) : Action Frame α :=
  Action.zoom Frame.stack (fun stack frame => { frame with stack }) action

/-- Performs an action on the local variables. -/
def onLocals (action : Action Locals α) : Action Frame α :=
  Action.zoom Frame.locals (fun locals frame => { frame with locals }) action

/-- Reads from the code; the cursor stays where the reader leaves it, also when it fails. -/
def reading (reader : Reader α) : Action Frame α := fun frame =>
  match reader.attempt frame.cursor with
  | (.ok value, cursor) => ⟨.ok value, { frame with cursor }, []⟩
  | (.error fault, cursor) => ⟨.error (.unreadableCode fault), { frame with cursor }, []⟩

/-- Takes the top value off the operand stack. -/
def pop : Action Frame Value :=
  onStack OperandStack.pop

/-- Puts a value on top of the operand stack. -/
def push (value : Value) : Action Frame Unit :=
  onStack (OperandStack.push value)

/-- Answers with the value that starts at a local index. -/
def getLocal (index : Nat) : Action Frame Value :=
  Action.inspect (·.locals.get index)

/-- Writes a value to a local index. -/
def setLocal (index : Nat) (value : Value) : Action Frame Unit :=
  onLocals (Locals.set index value)

/-- Goes on with the instruction at an offset, which must lie inside the code. -/
def goto (target : Nat) : Action Frame Unit := do
  let length := (← get).cursor.code.size
  if target < length then
    reading (Cursor.jumpTo target)
    modify fun frame => { frame with pc := target }
  else Action.fail (.jumpOutsideCode target length)

/-- Reads the next instruction and remembers where it starts. -/
def readInstruction : Action Frame Instruction := do
  modify fun frame => { frame with pc := frame.cursor.position }
  reading Instruction.read

end Frame

end BytecodeMachine
