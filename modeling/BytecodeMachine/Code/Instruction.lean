/-
This file holds the instructions of the machine and reads them from code. An
instruction is an op code with its narrow operands. The wide prefix is an
instruction of its own without operands: what it modifies is read when it is
executed. Main statement: reading at a position inside the code moves the
cursor forward and not beyond the end, whether it succeeds or not.
-/

import BytecodeMachine.Code.Cursor
import BytecodeMachine.Code.Opcode

namespace BytecodeMachine

/-- An instruction is an op code together with its operands. -/
inductive Instruction
  | nop
  | load (kind : LocalKind) (index : UInt8)
  | loadShort (kind : LocalKind) (index : Fin 4)
  | store (kind : LocalKind) (index : UInt8)
  | storeShort (kind : LocalKind) (index : Fin 4)
  | shuffle (operation : Shuffle)
  | iinc (index : UInt8) (increment : Int8)
  | ret (index : UInt8)
  | invokedynamic (callSite : UInt16)
  | monitorenter
  | monitorexit
  | wide
  | reserved (code : Reserved)
deriving DecidableEq

namespace Instruction

/-- The op code of an instruction. -/
def opcode : Instruction → Opcode
  | nop => .nop
  | load kind _ => .load kind
  | loadShort kind index => .loadShort kind index
  | store kind _ => .store kind
  | storeShort kind index => .storeShort kind index
  | shuffle operation => .shuffle operation
  | iinc _ _ => .iinc
  | ret _ => .ret
  | invokedynamic _ => .invokedynamic
  | monitorenter => .monitorenter
  | monitorexit => .monitorexit
  | wide => .wide
  | reserved code => .reserved code

/-- The operands of an instruction as numbers. -/
def operands : Instruction → List Int
  | load _ index | store _ index | ret index => [index.toNat]
  | iinc index increment => [index.toNat, increment.toInt]
  | invokedynamic callSite => [callSite.toNat]
  | nop | loadShort _ _ | storeShort _ _ | shuffle _ | monitorenter | monitorexit | wide
  | reserved _ => []

/-- An instruction is written as its name, followed by its operands in parentheses if it has
any. -/
def text (instruction : Instruction) : String :=
  match instruction.operands with
  | [] => instruction.opcode.name
  | operands => instruction.opcode.name ++ "(" ++ ", ".intercalate (operands.map toString) ++ ")"

end Instruction

/-! ### Reading -/

/-- Reads one byte as an op code; a byte that is none is taken nevertheless. -/
def Opcode.read : Reader Opcode := do
  let byte ← Cursor.readU8
  match Opcode.ofByte? byte with
  | some opcode => return opcode
  | none => throw (.unsupportedOpcode byte)

/-- Reads the operands that belong to an op code. The two bytes after the index of a call site
carry nothing, but have to be there. -/
def Opcode.readOperands : Opcode → Reader Instruction
  | .nop => return .nop
  | .load kind => return .load kind (← Cursor.readU8)
  | .loadShort kind index => return .loadShort kind index
  | .store kind => return .store kind (← Cursor.readU8)
  | .storeShort kind index => return .storeShort kind index
  | .shuffle operation => return .shuffle operation
  | .iinc => return .iinc (← Cursor.readU8) (← Cursor.readI8)
  | .ret => return .ret (← Cursor.readU8)
  | .invokedynamic => do
    let callSite ← Cursor.readU16
    let _ ← Cursor.readU16
    return .invokedynamic callSite
  | .monitorenter => return .monitorenter
  | .monitorexit => return .monitorexit
  | .wide => return .wide
  | .reserved code => return .reserved code

/-- Reads one instruction: its op code and then its operands. -/
def Instruction.read : Reader Instruction := do
  let opcode ← Opcode.read
  opcode.readOperands

end BytecodeMachine
