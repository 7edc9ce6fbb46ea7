/-
This file holds the faults of the machine. A fault names its cause; the kind
under which it is reported and the text that is shown for it are computed from
the cause. Waiting for a monitor is no fault.
-/

import BytecodeMachine.Code.Instruction
import BytecodeMachine.Value

namespace BytecodeMachine

/-- Why an action of the machine failed. -/
inductive Fault
  /-- No form of the shuffle fits the values on top of the stack, given by category, top first. -/
  | noMatchingForm (operation : Shuffle) (top : List Category)
  /-- A monitor cannot be entered any more often by its owner. -/
  | entryCountOverflow (thread : ThreadId)
  /-- A thread left the monitor of an object that is not locked. -/
  | exitUnlocked (thread : ThreadId)
  /-- A thread left a monitor that belongs to another one. -/
  | exitNotOwner (thread owner : ThreadId)
  /-- The byte after a wide prefix is no op code with a wide form. -/
  | notWidenable (byte : UInt8)
  /-- A jump leads out of the code. -/
  | jumpOutsideCode (target length : Nat)
  /-- A reserved instruction was met in code. -/
  | reservedInstruction (code : Reserved) (offset : Nat)
  /-- A dynamic call site would have to be linked. -/
  | callSiteLinkage (callSite : UInt16)
  /-- The code could not be read. -/
  | unreadableCode (fault : ReadFault)
  /-- A value is of the wrong kind. -/
  | typeMismatch
  /-- A local index lies outside the table. -/
  | indexOutOfBounds
  /-- No value starts in the local slot. -/
  | invalidLocal (index : Nat)
  /-- A value was taken from an operand stack without any. -/
  | emptyStack
  /-- A value does not fit on the operand stack any more. -/
  | stackOverflow
  /-- The null reference was used as an object. -/
  | nullReference
  /-- A reference leads to no object. -/
  | invalidReference (reference : ObjectRef)
  /-- The heap is full. -/
  | outOfMemory
  /-- Every thread waits for a monitor. -/
  | deadlock (threads : List ThreadId)
deriving DecidableEq

/-- The kinds under which faults are reported. -/
inductive FaultKind
  | internalInconsistency
  | malformedCode
  | unsupportedFeature
  | unreadableCode
  | typeMismatch
  | indexOutOfBounds
  | invalidLocal
  | emptyStack
  | stackOverflow
  | nullReference
  | invalidReference
  | outOfMemory
  | deadlock
deriving DecidableEq

namespace Fault

/-- The kind of a fault. -/
def kind : Fault → FaultKind
  | noMatchingForm .. | entryCountOverflow _ | exitUnlocked _ | exitNotOwner .. | notWidenable _ =>
    .internalInconsistency
  | jumpOutsideCode .. | reservedInstruction .. => .malformedCode
  | callSiteLinkage _ => .unsupportedFeature
  | unreadableCode _ => .unreadableCode
  | typeMismatch => .typeMismatch
  | indexOutOfBounds => .indexOutOfBounds
  | invalidLocal _ => .invalidLocal
  | emptyStack => .emptyStack
  | stackOverflow => .stackOverflow
  | nullReference => .nullReference
  | invalidReference _ => .invalidReference
  | outOfMemory => .outOfMemory
  | deadlock _ => .deadlock

/-- The cause in words. -/
def cause : Fault → String
  | noMatchingForm operation top =>
    operation.mnemonic ++ ": no form matches top of stack categories " ++
      bracketed (top.map Category.text)
  | entryCountOverflow thread => "monitor entry count overflow in " ++ thread.text
  | exitUnlocked thread => "monitorexit by " ++ thread.text ++ " on an unlocked object"
  | exitNotOwner thread owner =>
    "monitorexit by " ++ thread.text ++ " on a monitor owned by " ++ owner.text
  | notWidenable byte => "wide cannot modify op code " ++ hexByte byte
  | jumpOutsideCode target length =>
    "jump target " ++ toString target ++ " is outside of " ++ toString length ++ " bytes of code"
  | reservedInstruction code offset =>
    "reserved instruction " ++ (Instruction.reserved code).text ++ " at " ++ toString offset ++
      " must not appear in a class file"
  | callSiteLinkage callSite =>
    "invokedynamic #" ++ toString callSite.toNat ++ ": call site linkage is not supported"
  | unreadableCode fault => fault.message
  | typeMismatch => "value type miss match"
  | indexOutOfBounds => "index out of bounds"
  | invalidLocal index => "local variable " ++ toString index ++ " holds no readable value"
  | emptyStack => "can't pop from empty stack"
  | stackOverflow => "stack over flow"
  | nullReference => "NullPointerException"
  | invalidReference reference => "invalid object reference " ++ toString reference.index.toNat
  | outOfMemory => "out of memory"
  | deadlock threads => "deadlock between threads " ++ bracketed (threads.map ThreadId.entryText)

/-- The text shown for a fault: its cause, after the name of the kind where a kind has several
causes. -/
def message (fault : Fault) : String :=
  match fault.kind with
  | .internalInconsistency => "InternalInconsistency " ++ fault.cause
  | .malformedCode => "MalformedBytecode " ++ fault.cause
  | .unsupportedFeature => "UnsupportedFeature " ++ fault.cause
  | .unreadableCode => "CodeReadError " ++ fault.cause
  | _ => fault.cause

end Fault

end BytecodeMachine
