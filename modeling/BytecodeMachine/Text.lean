/-
This file fixes the two spellings that several texts of the machine share: a
list stands between square brackets, and a byte is written in hexadecimal.
-/

namespace BytecodeMachine

/-- A list is written between square brackets, with a comma and a blank between its items. -/
def bracketed (items : List String) : String :=
  "[" ++ ", ".intercalate items ++ "]"

/-- A byte is written as `0x` and exactly two lower-case hexadecimal digits. -/
def hexByte (byte : UInt8) : String :=
  "0x" ++ String.ofList [Nat.digitChar (byte.toNat / 16), Nat.digitChar (byte.toNat % 16)]

end BytecodeMachine
