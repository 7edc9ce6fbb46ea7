/-
This file holds the op codes of the machine, their bytes and their names. The
loads and stores come in families, one for each kind of local variable, so an
op code is described by what it does and its byte is computed from that; the
op code of a byte is found by search.
-/

namespace BytecodeMachine

/-! ### Parts of an op code -/

/-- The kind of local variable that a load or a store works on. -/
inductive LocalKind
  | int
  | long
  | float
  | double
  | reference
deriving DecidableEq

namespace LocalKind

/-- All kinds in the order of their op codes. -/
def all : List LocalKind :=
  [int, long, float, double, reference]

/-- The place of the kind among the op codes of a family. -/
def rank : LocalKind → UInt8
  | int => 0
  | long => 1
  | float => 2
  | double => 3
  | reference => 4

/-- The letter with which the names of a kind's op codes begin. -/
def letter : LocalKind → String
  | int => "i"
  | long => "l"
  | float => "f"
  | double => "d"
  | reference => "a"

end LocalKind

/-- The instructions that only rearrange the top of the operand stack. -/
inductive Shuffle
  | pop
  | pop2
  | dup
  | dupX1
  | dupX2
  | dup2
  | dup2X1
  | dup2X2
  | swap
deriving DecidableEq

namespace Shuffle

/-- All shuffles in the order of their op codes. -/
def all : List Shuffle :=
  [pop, pop2, dup, dupX1, dupX2, dup2, dup2X1, dup2X2, swap]

/-- The place of the shuffle among the op codes of its family. -/
def rank : Shuffle → UInt8
  | pop => 0
  | pop2 => 1
  | dup => 2
  | dupX1 => 3
  | dupX2 => 4
  | dup2 => 5
  | dup2X1 => 6
  | dup2X2 => 7
  | swap => 8

/-- The name of the shuffle in assembly. -/
def mnemonic : Shuffle → String
  | pop => "pop"
  | pop2 => "pop2"
  | dup => "dup"
  | dupX1 => "dup_x1"
  | dupX2 => "dup_x2"
  | dup2 => "dup2"
  | dup2X1 => "dup2_x1"
  | dup2X2 => "dup2_x2"
  | swap => "swap"

end Shuffle

/-- The op codes set aside for debuggers and implementations. -/
inductive Reserved
  | breakpoint
  | impdep1
  | impdep2
deriving DecidableEq

namespace Reserved

/-- All reserved op codes. -/
def all : List Reserved :=
  [breakpoint, impdep1, impdep2]

/-- The byte of the reserved op code. -/
def byte : Reserved → UInt8
  | breakpoint => 0xca
  | impdep1 => 0xfe
  | impdep2 => 0xff

/-- The name of the reserved op code in assembly. -/
def mnemonic : Reserved → String
  | breakpoint => "breakpoint"
  | impdep1 => "impdep1"
  | impdep2 => "impdep2"

end Reserved

/-! ### Op codes -/

/-- An op code; the short loads and stores carry the index of their local in the op code. -/
inductive Opcode
  | nop
  | load (kind : LocalKind)
  | loadShort (kind : LocalKind) (index : Fin 4)
  | store (kind : LocalKind)
  | storeShort (kind : LocalKind) (index : Fin 4)
  | shuffle (operation : Shuffle)
  | iinc
  | ret
  | invokedynamic
  | monitorenter
  | monitorexit
  | wide
  | reserved (code : Reserved)
deriving DecidableEq

namespace Opcode

/-- The byte of an op code. Within a family the kinds follow each other in order, and the four
short forms of a kind stand together. -/
def byte : Opcode → UInt8
  | nop => 0x00
  | load kind => 0x15 + kind.rank
  | loadShort kind index => 0x1a + 4 * kind.rank + UInt8.ofNat index.val
  | store kind => 0x36 + kind.rank
  | storeShort kind index => 0x3b + 4 * kind.rank + UInt8.ofNat index.val
  | shuffle operation => 0x57 + operation.rank
  | iinc => 0x84
  | ret => 0xa9
  | invokedynamic => 0xba
  | monitorenter => 0xc2
  | monitorexit => 0xc3
  | wide => 0xc4
  | reserved code => code.byte

/-- All op codes of the machine. -/
def all : List Opcode :=
  [nop] ++
  LocalKind.all.map load ++
  LocalKind.all.flatMap (fun kind => (List.finRange 4).map (loadShort kind)) ++
  LocalKind.all.map store ++
  LocalKind.all.flatMap (fun kind => (List.finRange 4).map (storeShort kind)) ++
  Shuffle.all.map shuffle ++
  [iinc, ret, invokedynamic, monitorenter, monitorexit, wide] ++
  Reserved.all.map reserved

/-- The op code of a byte, if the byte is one. -/
def ofByte? (byte : UInt8) : Option Opcode :=
  all.find? (·.byte == byte)

/-- The name of an op code in assembly. -/
def mnemonic : Opcode → String
  | nop => "nop"
  | load kind => kind.letter ++ "load"
  | loadShort kind index => kind.letter ++ "load_" ++ toString index.val
  | store kind => kind.letter ++ "store"
  | storeShort kind index => kind.letter ++ "store_" ++ toString index.val
  | shuffle operation => operation.mnemonic
  | iinc => "iinc"
  | ret => "ret"
  | invokedynamic => "invokedynamic"
  | monitorenter => "monitorenter"
  | monitorexit => "monitorexit"
  | wide => "wide"
  | reserved code => code.mnemonic

/-- The name under which an instruction is reported: its mnemonic with a capital letter. -/
def name (opcode : Opcode) : String :=
  opcode.mnemonic.capitalize

/-- Every op code is in the table. -/
theorem mem_all (opcode : Opcode) : opcode ∈ all := by
  rcases opcode with _ | kind | ⟨kind, index⟩ | kind | ⟨kind, index⟩ | operation | _ | _ | _ | _ |
    _ | _ | code
  case nop | iinc | ret | invokedynamic | monitorenter | monitorexit | wide => decide
  case load | store => cases kind <;> decide
  case shuffle => cases operation <;> decide
  case reserved => cases code <;> decide
  case loadShort | storeShort => revert index; cases kind <;> decide

/-- No two op codes share a byte. -/
theorem byte_injective {left right : Opcode} (equal : left.byte = right.byte) : left = right := by
  have table : ∀ left ∈ all, ∀ right ∈ all, left.byte = right.byte → left = right := by
    decide +kernel
  exact table left left.mem_all right right.mem_all equal

/-- A byte is that of an op code exactly when the search finds that op code. -/
theorem ofByte?_eq_some_iff {byte : UInt8} {opcode : Opcode} :
    ofByte? byte = some opcode ↔ opcode.byte = byte := by
  constructor
  · intro found
    simpa using List.find?_some found
  · rintro rfl
    rcases found : ofByte? opcode.byte with _ | other
    · exact absurd (List.find?_eq_none.mp found opcode opcode.mem_all) (by simp)
    · have same : other.byte = opcode.byte := by simpa using List.find?_some found
      rw [byte_injective same]

@[simp]
theorem ofByte?_byte (opcode : Opcode) : ofByte? opcode.byte = some opcode :=
  ofByte?_eq_some_iff.mpr rfl

end Opcode

/-! ### Op codes with a wide form -/

/-- The op codes that a wide prefix may modify: those with a local index as operand. -/
inductive Widenable
  | load (kind : LocalKind)
  | store (kind : LocalKind)
  | iinc
  | ret
deriving DecidableEq

/-- The op code that the wide form stands for. -/
def Widenable.opcode : Widenable → Opcode
  | load kind => .load kind
  | store kind => .store kind
  | iinc => .iinc
  | ret => .ret

/-- The op code as one with a wide form, if it has one. -/
def Opcode.widen? : Opcode → Option Widenable
  | load kind => some (.load kind)
  | store kind => some (.store kind)
  | iinc => some .iinc
  | ret => some .ret
  | nop | loadShort .. | storeShort .. | shuffle _ | invokedynamic | monitorenter | monitorexit
  | wide | reserved _ => none

/-- Whether the op code has a wide form. -/
def Opcode.isWidenable (opcode : Opcode) : Bool :=
  opcode.widen?.isSome

theorem Opcode.widen?_eq_some_iff {opcode : Opcode} {form : Widenable} :
    opcode.widen? = some form ↔ form.opcode = opcode := by
  cases opcode <;> cases form <;> simp [widen?, Widenable.opcode, eq_comm]

end BytecodeMachine
