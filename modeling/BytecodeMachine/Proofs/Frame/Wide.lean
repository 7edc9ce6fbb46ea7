/-
This file compares the wide form of an instruction with the narrow one. Both
read their operands in a format of their own and then do the same with them.
Main statement: where the wide operands are in the range of the narrow form,
the two leave the same frame and heap and have the same result, also where they
fail; a byte that has no wide form and operands that are cut off are reported,
and then nothing but the cursor has moved.
-/

import BytecodeMachine.Proofs.Code.Encoding
import BytecodeMachine.Proofs.Frame.WellFormed

namespace BytecodeMachine

/-! ### The two forms of an instruction -/

namespace Widenable

/-- The instruction in its narrow form; only an increment has a constant. -/
def narrow : Widenable → UInt8 → Int8 → Instruction
  | load kind, index, _ => .load kind index
  | store kind, index, _ => .store kind index
  | iinc, index, constant => .iinc index constant
  | ret, index, _ => .ret index

/-- What the instruction does to a frame. -/
def perform : Widenable → Nat → Int32 → Action Frame Unit
  | load kind, index, _ => Frame.load kind index
  | store kind, index, _ => Frame.store kind index
  | iinc, index, constant => Frame.increment index constant
  | ret, index, _ => Frame.returnTo index

/-- The number of operand bytes of the wide form. -/
def wideOperandCount : Widenable → Nat
  | load _ | store _ | ret => 2
  | iinc => 4

/-- The bytes of the constant in the wide form, if the instruction has one. -/
def wideConstant : Widenable → Int16 → List UInt8
  | iinc, constant => bigEndian constant.toUInt16
  | load _, _ | store _, _ | ret, _ => []

/-- The bytes behind a wide prefix: the op code and its operands, all of them twice as wide. -/
def wideBytes (form : Widenable) (index : UInt16) (constant : Int16) : List UInt8 :=
  form.opcode.byte :: (bigEndian index ++ form.wideConstant constant)

/-- Enough bytes always stand for the operands of a wide form. -/
theorem exists_wideOperands (form : Widenable) {cursor : Cursor}
    (enough : form.wideOperandCount ≤ cursor.remaining.length) :
    ∃ index constant, bigEndian index ++ form.wideConstant constant <+: cursor.remaining := by
  have two : 2 ≤ form.wideOperandCount := by cases form <;> simp [wideOperandCount]
  obtain ⟨index, _, rfl, indexHere⟩ := Cursor.reads_readU16.exists_front (Nat.le_trans two enough)
  cases form
  case load | store | ret =>
    exact ⟨index, 0, Cursor.append_prefix_iff.mpr ⟨indexHere, List.nil_prefix⟩⟩
  case iinc =>
    have four : 4 ≤ cursor.remaining.length := enough
    have behind : 2 ≤ (cursor.skip 2).remaining.length := by
      rw [Cursor.length_remaining_skip]
      omega
    obtain ⟨constant, _, rfl, constantHere⟩ := Cursor.reads_readI16.exists_front behind
    exact ⟨index, constant, Cursor.append_prefix_iff.mpr ⟨indexHere, constantHere⟩⟩

/-- The byte of an op code with a wide form is recognised as such. -/
theorem widen?_byte (form : Widenable) :
    (Opcode.ofByte? form.opcode.byte).bind Opcode.widen? = some form := by
  rw [Opcode.ofByte?_byte, Option.bind_some, Opcode.widen?_eq_some_iff]

/-- Any other byte is not. -/
theorem widen?_eq_none {byte : UInt8} (other : ∀ form : Widenable, form.opcode.byte ≠ byte) :
    (Opcode.ofByte? byte).bind Opcode.widen? = none := by
  refine Option.eq_none_iff_forall_ne_some.mpr fun form found => ?_
  obtain ⟨opcode, known, widened⟩ := Option.bind_eq_some_iff.mp found
  refine other form ?_
  rw [Opcode.widen?_eq_some_iff.mp widened, Opcode.ofByte?_eq_some_iff.mp known]

end Widenable

namespace Frame

variable {frame : Frame}

/-! ### Reading in a frame -/

section Reading

variable {α : Type} {reader : Reader α} {width : Nat} {format : α → List UInt8 → Prop}

theorem attempt_reading_of_bytes (reads : reader.Reads width format) {value : α}
    {bytes : List UInt8} (here : format value bytes) (ahead : bytes <+: frame.cursor.remaining) :
    (reading reader).attempt frame =
      (.ok value, { frame with cursor := frame.cursor.skip width }) := by
  rw [attempt_reading, reads.attempt_eq here ahead]
  rfl

theorem attempt_reading_of_short (frame : Frame) (reads : reader.Reads width format)
    (short : frame.cursor.remaining.length < width) :
    ∃ cursor, (reading reader).attempt frame =
      (.error (.unreadableCode .endOfCode), { frame with cursor }) := by
  refine ⟨(reader.attempt frame.cursor).2, ?_⟩
  rw [attempt_reading, reads.endOfCode short]
  rfl

end Reading

/-! ### Executing the wide form -/

/-- The wide form does to the frame behind its operands what it stands for. -/
theorem attempt_executeWide_of_bytes {form : Widenable} {index : UInt16} {constant : Int16}
    (ahead : form.wideBytes index constant <+: frame.cursor.remaining) :
    executeWide.attempt frame = (form.perform index.toNat constant.toInt32).attempt
      { frame with cursor := frame.cursor.skip (1 + form.wideOperandCount) } := by
  obtain ⟨opcodeHere, operandsHere⟩ := Cursor.cons_prefix_iff.mp ahead
  obtain ⟨indexHere, constantHere⟩ := Cursor.append_prefix_iff.mp operandsHere
  have known := form.widen?_byte
  rw [executeWide, Action.attempt_bind_of_ok _
    (attempt_reading_of_bytes Cursor.reads_readU8 rfl (Cursor.peek?_eq_some_iff.mp opcodeHere))]
  cases form <;> simp only [known] <;> rw [Action.attempt_bind_of_ok _
    (attempt_reading_of_bytes Cursor.reads_readU16 rfl indexHere)]
  case load | store | ret => rw [Cursor.skip_skip]; rfl
  case iinc =>
    have constantHere : bigEndian constant.toUInt16 <+:
        ((frame.cursor.skip 1).skip 2).remaining := constantHere
    rw [Action.attempt_bind_of_ok _
      (attempt_reading_of_bytes Cursor.reads_readI16 rfl constantHere), Cursor.skip_skip,
      Cursor.skip_skip]
    rfl

theorem attempt_executeWide_of_notWidenable {byte : UInt8}
    (here : frame.cursor.peek? 0 = some byte)
    (other : ∀ form : Widenable, form.opcode.byte ≠ byte) :
    executeWide.attempt frame =
      (.error (.notWidenable byte), { frame with cursor := frame.cursor.skip 1 }) := by
  rw [executeWide, Action.attempt_bind_of_ok _
    (attempt_reading_of_bytes Cursor.reads_readU8 rfl (Cursor.peek?_eq_some_iff.mp here))]
  simp only [Widenable.widen?_eq_none other, Action.attempt_fail]

/-- The bytes that the wide form needs do not all lie inside the code. -/
def WideCutOff (frame : Frame) : Prop :=
  frame.cursor.peek? 0 = none ∨
    ∃ form : Widenable, frame.cursor.peek? 0 = some form.opcode.byte ∧
      frame.cursor.remaining.length < 1 + form.wideOperandCount

/-- Where bytes are missing, only the cursor moves. -/
theorem attempt_executeWide_of_cutOff (cutOff : frame.WideCutOff) :
    ∃ cursor, executeWide.attempt frame =
      (.error (.unreadableCode .endOfCode), { frame with cursor }) := by
  rcases cutOff with nothing | ⟨form, here, short⟩
  · have empty : frame.cursor.remaining.length < 1 := by
      rw [Cursor.peek?_eq_getElem?, List.getElem?_eq_none_iff] at nothing
      exact Nat.lt_succ_of_le nothing
    obtain ⟨cursor, failed⟩ := attempt_reading_of_short frame Cursor.reads_readU8 empty
    exact ⟨cursor, by rw [executeWide, Action.attempt_bind_of_error _ failed]⟩
  · have known := form.widen?_byte
    rw [executeWide, Action.attempt_bind_of_ok _
      (attempt_reading_of_bytes Cursor.reads_readU8 rfl (Cursor.peek?_eq_some_iff.mp here))]
    simp only [known]
    rcases Nat.lt_or_ge (frame.cursor.skip 1).remaining.length 2 with noIndex | enough
    · obtain ⟨cursor, failed⟩ := attempt_reading_of_short
        { frame with cursor := frame.cursor.skip 1 } Cursor.reads_readU16 noIndex
      exact ⟨cursor, Action.attempt_bind_of_error _ failed⟩
    · obtain ⟨index, _, rfl, indexHere⟩ := Cursor.reads_readU16.exists_front enough
      rw [Action.attempt_bind_of_ok _
        (attempt_reading_of_bytes Cursor.reads_readU16 rfl indexHere)]
      rw [Cursor.length_remaining_skip] at enough
      cases form <;> simp only [Widenable.wideOperandCount] at short
      case load | store | ret => omega
      case iinc =>
        have noConstant : ((frame.cursor.skip 1).skip 2).remaining.length < 2 := by
          rw [Cursor.length_remaining_skip, Cursor.length_remaining_skip]
          omega
        obtain ⟨cursor, failed⟩ := attempt_reading_of_short
          { frame with cursor := (frame.cursor.skip 1).skip 2 } Cursor.reads_readI16 noConstant
        exact ⟨cursor, Action.attempt_bind_of_error _ failed⟩

/-- The bytes behind a wide prefix are cut off, or the first of them has no wide form, or they
are the op code and the operands of a wide form. -/
theorem wide_cases (frame : Frame) :
    frame.WideCutOff ∨
    (∃ byte, frame.cursor.peek? 0 = some byte ∧ ∀ form : Widenable, form.opcode.byte ≠ byte) ∨
    ∃ (form : Widenable) (index : UInt16) (constant : Int16),
      form.wideBytes index constant <+: frame.cursor.remaining := by
  cases here : frame.cursor.peek? 0 with
  | none => exact Or.inl (Or.inl here)
  | some byte =>
    by_cases known : ∃ form : Widenable, form.opcode.byte = byte
    · obtain ⟨form, rfl⟩ := known
      rcases Nat.lt_or_ge frame.cursor.remaining.length (1 + form.wideOperandCount) with
        short | enough
      · exact Or.inl (Or.inr ⟨form, here, short⟩)
      · obtain ⟨index, constant, operandsHere⟩ := form.exists_wideOperands
          (show form.wideOperandCount ≤ (frame.cursor.skip 1).remaining.length by
            rw [Cursor.length_remaining_skip]
            omega)
        exact Or.inr (Or.inr ⟨form, index, constant,
          Cursor.cons_prefix_iff.mpr ⟨here, operandsHere⟩⟩)
    · exact Or.inr (Or.inl ⟨byte, rfl, not_exists.mp known⟩)

/-- Executing a wide form succeeds only when its bytes are there, and it is then done. -/
theorem exists_of_executeWide {next : Frame}
    (success : executeWide.attempt frame = (.ok (), next)) :
    ∃ (form : Widenable) (index : UInt16) (constant : Int16),
      form.wideBytes index constant <+: frame.cursor.remaining ∧
        (form.perform index.toNat constant.toInt32).attempt
          { frame with cursor := frame.cursor.skip (1 + form.wideOperandCount) } =
            (.ok (), next) := by
  rcases frame.wide_cases with cutOff | ⟨byte, here, other⟩ | ⟨form, index, constant, ahead⟩
  · obtain ⟨cursor, failed⟩ := attempt_executeWide_of_cutOff cutOff
    cases failed.symm.trans success
  · cases (attempt_executeWide_of_notWidenable here other).symm.trans success
  · exact ⟨form, index, constant, ahead, (attempt_executeWide_of_bytes ahead) ▸ success⟩

/-! ### The two forms compared -/

theorem aloneAction?_narrow (form : Widenable) (index : UInt8) (constant : Int8) :
    aloneAction? (form.narrow index constant) =
      some (form.perform index.toNat constant.toInt32) := by
  cases form <;> rfl

/-- The wide form of an instruction whose operands are in the range of the narrow form is executed
like the narrow form in the frame behind them: with the same result, and with the same frame and
heap afterwards. A byte without a wide form is refused; where bytes are missing, the end of the
code is reported. Neither changes anything but the cursor. -/
theorem execute_wide_agrees (frame : Frame) (heap : Heap) :
    (∀ (form : Widenable) (index : UInt8) (constant : Int8),
      form.opcode.byte :: 0x00 :: index :: form.wideConstant constant.toInt16 <+:
          frame.cursor.remaining →
        (execute .wide).attempt (frame, heap) =
          (execute (form.narrow index constant)).attempt
            ({ frame with cursor := frame.cursor.skip (1 + form.wideOperandCount) }, heap)) ∧
    (∀ byte, frame.cursor.peek? 0 = some byte →
      (∀ form : Widenable, form.opcode.byte ≠ byte) →
        (execute .wide).attempt (frame, heap) =
          (.error (.notWidenable byte), ({ frame with cursor := frame.cursor.skip 1 }, heap)) ∧
        (Fault.notWidenable byte).kind = .internalInconsistency) ∧
    (frame.WideCutOff →
      ∃ cursor, (execute .wide).attempt (frame, heap) =
        (.error (.unreadableCode .endOfCode), ({ frame with cursor }, heap))) := by
  have concerned : aloneAction? .wide = some executeWide := rfl
  have wide := attempt_execute_of_aloneAction? concerned frame heap
  refine ⟨fun form index constant ahead => ?_, fun byte here other => ⟨?_, rfl⟩,
    fun cutOff => ?_⟩
  · have bytes : form.wideBytes index.toUInt16 constant.toInt16 =
        form.opcode.byte :: 0x00 :: index :: form.wideConstant constant.toInt16 := by
      rw [Widenable.wideBytes, bigEndian_toUInt16]
      rfl
    rw [wide, attempt_executeWide_of_bytes (bytes ▸ ahead),
      attempt_execute_of_aloneAction? (aloneAction?_narrow form index constant)]
    simp only [UInt8.toNat_toUInt16, Int8.toInt32_toInt16]
  · rw [wide, attempt_executeWide_of_notWidenable here other]
    rfl
  · obtain ⟨cursor, failed⟩ := attempt_executeWide_of_cutOff cutOff
    refine ⟨cursor, ?_⟩
    rw [wide, failed]
    rfl

/-- A wide increment by a negative constant agrees with the narrow one, a wide prefix before
another one is refused, and a wide load with half an index is cut off. -/
theorem execute_wide_agrees_iinc :
    let frame (code : Array UInt8) : Frame := ⟨⟨0⟩, 0, ⟨code, 1⟩, .blank 2, .empty 1⟩
    let increment := frame #[0xc4, 0x84, 0x00, 0x01, 0xff, 0xfd]
    (execute .wide).attempt (increment, .empty 0) =
        (execute (.iinc 1 (-3))).attempt
          ({ increment with cursor := increment.cursor.skip 5 }, .empty 0) ∧
      (execute .wide).attempt (frame #[0xc4, 0xc4], .empty 0) =
        (.error (.notWidenable 0xc4),
          ({ frame #[0xc4, 0xc4] with cursor := (frame #[0xc4, 0xc4]).cursor.skip 1 }, .empty 0)) ∧
      ∃ cursor, (execute .wide).attempt (frame #[0xc4, 0x15, 0x00], .empty 0) =
        (.error (.unreadableCode .endOfCode),
          ({ frame #[0xc4, 0x15, 0x00] with cursor }, .empty 0)) := by
  have other : ∀ form : Widenable, form.opcode.byte ≠ 0xc4 := by
    intro form
    cases form with
    | load kind | store kind => cases kind <;> decide
    | iinc | ret => decide
  refine ⟨(execute_wide_agrees _ _).1 .iinc 1 (-3) ⟨[], rfl⟩,
    ((execute_wide_agrees _ _).2.1 0xc4 rfl other).1, ?_⟩
  exact (execute_wide_agrees _ _).2.2 (Or.inr ⟨.load .int, rfl, by decide⟩)

end Frame

end BytecodeMachine
