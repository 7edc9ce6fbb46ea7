/-
This file holds the slots of which a table of local variables consists.
-/

import BytecodeMachine.Value

namespace BytecodeMachine

/-- One slot of a table of local variables. -/
inductive Slot
  /-- A value starts here. -/
  | entry (value : Value)
  /-- The upper half of the value of category two in the slot below. -/
  | upperHalf
  /-- Nothing readable is here. -/
  | uninitialized
deriving DecidableEq

namespace Slot

/-- Whether a value of category two starts in the slot. -/
def isWide : Slot → Bool
  | entry value => value.category == .two
  | upperHalf | uninitialized => false

/-- A slot is written with what it holds. -/
def text : Slot → String
  | entry value => "Entry(" ++ value.text ++ ")"
  | upperHalf => "PlaceHolder"
  | uninitialized => "Uninitialized"

end Slot

end BytecodeMachine
