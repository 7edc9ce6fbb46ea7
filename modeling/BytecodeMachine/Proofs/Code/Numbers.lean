/-
This file says what it is to read a number from code. A read takes all of its
bytes and answers with the number for which they stand, or it fails and leaves
the cursor, wherever that is. Main statement: the four readers of numbers are
exact in this sense, two bytes at a time are read like one after the other, and
whatever is read from code and wherever in it one jumps, the cursor stays
inside the code.
-/

import Mathlib.Data.Int.ModEq
import BytecodeMachine.Proofs.Code.Encoding

namespace BytecodeMachine

/-! ### The numbers for which bytes stand -/

/-- The number for which bytes stand without a sign, the high byte first. -/
def numberOf (bytes : List UInt8) : Nat :=
  bytes.foldl (fun high byte => 256 * high + byte.toNat) 0

/-- An integer is the one for which bytes stand in two's complement: of all that are congruent to
their number without a sign, the one that as many bits can hold with a sign. -/
structure IsTwosComplement (bytes : List UInt8) (number : Int) : Prop where
  modEq : number ≡ numberOf bytes [ZMOD 2 ^ (8 * bytes.length)]
  least_le : -2 ^ (8 * bytes.length - 1) ≤ number
  lt_bound : number < 2 ^ (8 * bytes.length - 1)

theorem numberOf_byte (byte : UInt8) : numberOf [byte] = byte.toNat :=
  Nat.zero_add _

theorem numberOf_pair (high low : UInt8) :
    numberOf [high, low] = 256 * high.toNat + low.toNat := by
  simp [numberOf]

theorem numberOf_bigEndian (number : UInt16) : numberOf (bigEndian number) = number.toNat := by
  have bound := number.toNat_lt
  rw [bigEndian, numberOf_pair, UInt8.toNat_ofNat', UInt8.toNat_ofNat']
  omega

theorem Int8.isTwosComplement (number : Int8) :
    IsTwosComplement [number.toUInt8] number.toInt where
  modEq := by
    rw [numberOf_byte, ← number.toInt_toBitVec, BitVec.toInt_eq_toNat_bmod]
    exact Int.bmod_emod
  least_le := number.le_toInt
  lt_bound := number.toInt_lt

theorem Int16.isTwosComplement (number : Int16) :
    IsTwosComplement (bigEndian number.toUInt16) number.toInt where
  modEq := by
    rw [numberOf_bigEndian, ← number.toInt_toBitVec, BitVec.toInt_eq_toNat_bmod]
    exact Int.bmod_emod
  least_le := number.le_toInt
  lt_bound := number.toInt_lt

/-! ### Exact readers -/

namespace Reader

variable {α : Type}

/-- The reader takes a fixed number of bytes wherever they all lie inside the code, and answers with
a value that they mean; anywhere else it fails for want of code and leaves the cursor. -/
structure Exact (reader : Reader α) (width : Nat) (meaning : List UInt8 → α → Prop) : Prop where
  attempt_of_inside : ∀ cursor : Cursor, cursor.position + width ≤ cursor.code.size →
    ∃ value, reader.attempt cursor = (.ok value, cursor.skip width) ∧
      meaning (cursor.remaining.take width) value
  attempt_of_outside : ∀ cursor : Cursor, cursor.code.size < cursor.position + width →
    reader.attempt cursor = (.error .endOfCode, cursor)

/-- A reader that takes a fixed number of bytes and does not move when it fails is exact. -/
theorem Reads.exact {reader : Reader α} {width : Nat} {format : α → List UInt8 → Prop}
    {meaning : List UInt8 → α → Prop} (reads : reader.Reads width format) (atomic : reader.Atomic)
    (width_pos : 0 < width) (sound : ∀ value bytes, format value bytes → meaning bytes value) :
    reader.Exact width meaning where
  attempt_of_inside cursor inside := by
    have enough : width ≤ cursor.remaining.length := by
      rw [cursor.length_remaining]
      omega
    obtain ⟨value, bytes, here, ahead⟩ := reads.exists_front enough
    refine ⟨value, reads.attempt_eq here ahead, sound _ _ ?_⟩
    rwa [← reads.length_eq here, ← List.prefix_iff_eq_take.mp ahead]
  attempt_of_outside cursor outside := by
    -- Behind the end nothing remains, and only a reader of no bytes would succeed there.
    have short : cursor.remaining.length < width := by
      rw [cursor.length_remaining]
      omega
    have failed := reads.endOfCode short
    exact Prod.ext failed (atomic (Prod.ext failed rfl))

end Reader

namespace Cursor

theorem exact_readU8 :
    Reader.Exact readU8 1 fun bytes number => number.toNat = numberOf bytes := by
  refine reads_readU8.exact atomic_readU8 Nat.one_pos fun byte bytes here => ?_
  rw [here, numberOf_byte]

theorem exact_readU16 :
    Reader.Exact readU16 2 fun bytes number => number.toNat = numberOf bytes := by
  refine reads_readU16.exact atomic_readU16 Nat.two_pos fun number bytes here => ?_
  rw [here, numberOf_bigEndian]

theorem exact_readI8 :
    Reader.Exact readI8 1 fun bytes number => IsTwosComplement bytes number.toInt := by
  refine reads_readI8.exact (atomic_readU8.map _) Nat.one_pos fun number bytes here => ?_
  rw [here]
  exact Int8.isTwosComplement number

theorem exact_readI16 :
    Reader.Exact readI16 2 fun bytes number => IsTwosComplement bytes number.toInt := by
  refine reads_readI16.exact (atomic_readU16.map _) Nat.two_pos fun number bytes here => ?_
  rw [here]
  exact Int16.isTwosComplement number

theorem toNat_ofNat_pair (high low : UInt8) :
    (UInt16.ofNat (256 * high.toNat + low.toNat)).toNat = 256 * high.toNat + low.toNat := by
  rw [← numberOf_bigEndian, bigEndian_ofNat, numberOf_pair]

/-- Two bytes are read at a time exactly where they can be read one after the other. -/
theorem readU16_eq_ok_iff {cursor later : Cursor} {number : UInt16} :
    Reader.attempt readU16 cursor = (.ok number, later) ↔
      ∃ high low middle, Reader.attempt readU8 cursor = (.ok high, middle) ∧
        Reader.attempt readU8 middle = (.ok low, later) ∧
        number.toNat = 256 * high.toNat + low.toNat := by
  constructor
  · intro read
    rw [attempt_readU16] at read
    split at read
    · next high low first second =>
      cases read
      have following : (cursor.skip 1).peek? 0 = some low := second
      exact ⟨high, low, cursor.skip 1, readU8_eq_ok_iff.mpr ⟨first, rfl⟩,
        readU8_eq_ok_iff.mpr ⟨following, rfl⟩, toNat_ofNat_pair high low⟩
    · cases read
  · rintro ⟨high, low, middle, first, second, value⟩
    obtain ⟨here, rfl⟩ := readU8_eq_ok_iff.mp first
    obtain ⟨following, rfl⟩ := readU8_eq_ok_iff.mp second
    have next : cursor.peek? 1 = some low := following
    rw [← toNat_ofNat_pair, UInt16.toNat_inj] at value
    rw [attempt_readU16, here, next, value]
    rfl

/-! ### Calls on a cursor -/

/-- A call by which a cursor is moved. -/
inductive Call
  | readU8
  | readI8
  | readU16
  | readI16
  | jumpTo (target : Nat)
deriving DecidableEq

/-- Performs a call. The number that is read has no part in what follows. -/
def Call.perform : Call → Reader Unit
  | readU8 => do let _ ← Cursor.readU8
  | readI8 => do let _ ← Cursor.readI8
  | readU16 => do let _ ← Cursor.readU16
  | readI16 => do let _ ← Cursor.readI16
  | jumpTo target => Cursor.jumpTo target

/-- The cursor that calls leave, whether they succeed or fail. -/
def after : List Call → Cursor → Cursor
  | [], cursor => cursor
  | call :: later, cursor => after later (call.perform.attempt cursor).2

/-- A cursor stands inside a code when it reads it and has not passed its end. -/
structure Inside (cursor : Cursor) (code : Array UInt8) : Prop where
  code_eq : cursor.code = code
  position_le : cursor.position ≤ code.size

theorem inside_start (code : Array UInt8) : (start code).Inside code :=
  ⟨rfl, Nat.zero_le _⟩

variable {cursor : Cursor} {code : Array UInt8}

/-- What is read keeps the cursor inside the code. -/
theorem Inside.forward {α : Type} {reader : Reader α} (inside : cursor.Inside code)
    (forward : reader.Forward) : (reader.attempt cursor).2.Inside code := by
  obtain ⟨sameCode, -, notPast⟩ := forward cursor
  obtain ⟨rfl, within⟩ := inside
  rw [Nat.max_eq_right within] at notPast
  exact ⟨sameCode, notPast⟩

theorem Inside.perform (inside : cursor.Inside code) (call : Call) :
    (call.perform.attempt cursor).2.Inside code := by
  cases call with
  | readU8 => exact inside.forward (forward_readU8.bind fun _ => .pure _)
  | readI8 => exact inside.forward (forward_readI8.bind fun _ => .pure _)
  | readU16 => exact inside.forward (forward_readU16.bind fun _ => .pure _)
  | readI16 => exact inside.forward (forward_readI16.bind fun _ => .pure _)
  | jumpTo target =>
    rw [Call.perform, attempt_jumpTo, inside.code_eq]
    split
    · next within => exact ⟨rfl, within⟩
    · exact inside

theorem Inside.after (inside : cursor.Inside code) (calls : List Call) :
    (after calls cursor).Inside code := by
  induction calls generalizing cursor with
  | nil => exact inside
  | cons call later inductionHypothesis => exact inductionHypothesis (inside.perform call)

/-- Wherever the cursor is, also behind the end of the code, a number is read if all of its bytes
lie inside the code, and otherwise the code is reported to have ended and the cursor stays; two
bytes at a time are read like one after the other. After any reads and jumps in new code, failing
ones included, the cursor has not passed the end, for a jump fails, without moving the cursor,
exactly when it leads behind the end. -/
theorem reads_exactly_or_stays :
    (Reader.Exact readU8 1 fun bytes number => number.toNat = numberOf bytes) ∧
    (Reader.Exact readI8 1 fun bytes number => IsTwosComplement bytes number.toInt) ∧
    (Reader.Exact readU16 2 fun bytes number => number.toNat = numberOf bytes) ∧
    (Reader.Exact readI16 2 fun bytes number => IsTwosComplement bytes number.toInt) ∧
    (∀ cursor number later, Reader.attempt readU16 cursor = (.ok number, later) ↔
      ∃ high low middle, Reader.attempt readU8 cursor = (.ok high, middle) ∧
        Reader.attempt readU8 middle = (.ok low, later) ∧
        number.toNat = 256 * high.toNat + low.toNat) ∧
    (∀ code calls, (after calls (start code)).Inside code) ∧
    ∀ cursor target later,
      (Reader.attempt (jumpTo target) cursor = (.ok (), later) ↔
        target ≤ cursor.code.size ∧ later = { cursor with position := target }) ∧
      ∀ fault, Reader.attempt (jumpTo target) cursor = (.error fault, later) ↔
        cursor.code.size < target ∧ fault = .invalidJump target ∧ later = cursor := by
  refine ⟨exact_readU8, exact_readI8, exact_readU16, exact_readI16,
    fun cursor number later => readU16_eq_ok_iff,
    fun code calls => (inside_start code).after calls, fun cursor target later => ?_⟩
  rw [attempt_jumpTo]
  rcases Nat.lt_or_ge cursor.code.size target with behind | within
  · simp [Nat.not_le_of_lt behind, behind, eq_comm]
  · simp [within, Nat.not_lt_of_le within, eq_comm]

/-- Two bytes with a sign, and one byte that is not enough. -/
example : Reader.attempt readI16 ⟨#[0x00, 0xff, 0xfd], 1⟩ = (.ok (-3), ⟨#[0x00, 0xff, 0xfd], 3⟩) ∧
    Reader.attempt readI16 ⟨#[0x00, 0xff, 0xfd], 2⟩ =
      (.error .endOfCode, ⟨#[0x00, 0xff, 0xfd], 2⟩) := by decide

end Cursor

end BytecodeMachine
