/-
This file names the three ways in which reading code can go wrong.
-/

import BytecodeMachine.Text

namespace BytecodeMachine

/-- Why the code of a method could not be read. -/
inductive ReadFault
  /-- The bytes asked for do not all lie inside the code. -/
  | endOfCode
  /-- The byte is no op code. -/
  | unsupportedOpcode (byte : UInt8)
  /-- The offset lies beyond the end of the code. -/
  | invalidJump (target : Nat)
deriving DecidableEq

/-- The text shown for a reading fault. -/
def ReadFault.message : ReadFault → String
  | endOfCode => "unexpected end of code"
  | unsupportedOpcode byte => "unsupported op code " ++ hexByte byte
  | invalidJump target => "invalid jump target " ++ toString target

end BytecodeMachine
