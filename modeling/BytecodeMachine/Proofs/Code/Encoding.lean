/-
This file relates the reading of instructions to the format in which they are
encoded. A reader of fixed width is described by the bytes that stand for each
value: it reads a value exactly where such bytes lie ahead, and fails for want
of code where fewer bytes remain. Main statement: the instruction reader
accepts the encodings of the instructions, wherever they stand, and nothing
else, and its two faults tell apart what is wrong with the rest.
-/

import BytecodeMachine.Code.Sweep

namespace BytecodeMachine

/-! ### Numbers of two bytes -/

/-- A number of two bytes, the high byte first. -/
def bigEndian (number : UInt16) : List UInt8 :=
  [UInt8.ofNat (number.toNat / 256), UInt8.ofNat number.toNat]

/-- Two bytes stand for the number that is read from them. -/
theorem bigEndian_ofNat (high low : UInt8) :
    bigEndian (UInt16.ofNat (256 * high.toNat + low.toNat)) = [high, low] := by
  have highBound := high.toNat_lt
  have lowBound := low.toNat_lt
  have small : 256 * high.toNat + low.toNat < UInt16.size := by
    change 256 * high.toNat + low.toNat < 65536
    omega
  have quotient : (256 * high.toNat + low.toNat) / 256 = high.toNat := by omega
  rw [bigEndian, UInt16.toNat_ofNat_of_lt' small, quotient, UInt8.ofNat_toNat]
  congr
  rw [← UInt8.toNat_inj, UInt8.toNat_ofNat']
  omega

/-- A number is read back from the two bytes that stand for it. -/
theorem eq_of_bigEndian_eq {number : UInt16} {high low : UInt8}
    (same : bigEndian number = [high, low]) :
    UInt16.ofNat (256 * high.toNat + low.toNat) = number := by
  have bound := number.toNat_lt
  simp only [bigEndian, List.cons.injEq, and_true] at same
  obtain ⟨rfl, rfl⟩ := same
  rw [← UInt16.toNat_inj, UInt16.toNat_ofNat', UInt8.toNat_ofNat', UInt8.toNat_ofNat']
  omega

theorem bigEndian_toUInt16 (byte : UInt8) : bigEndian byte.toUInt16 = [0x00, byte] := by
  have bound := byte.toNat_lt
  rw [bigEndian, UInt8.toNat_toUInt16, UInt8.ofNat_toNat, Nat.div_eq_of_lt bound]
  rfl

/-! ### The bytes ahead of a cursor -/

namespace Cursor

/-- The bytes from the cursor to the end of the code. -/
def remaining (cursor : Cursor) : List UInt8 :=
  cursor.code.toList.drop cursor.position

theorem peek?_eq_getElem? (cursor : Cursor) (ahead : Nat) :
    cursor.peek? ahead = cursor.remaining[ahead]? := by
  rw [peek?, remaining, List.getElem?_drop, Array.getElem?_toList]

/-- The next byte is the first of those that remain. -/
theorem peek?_eq_some_iff {cursor : Cursor} {byte : UInt8} :
    cursor.peek? 0 = some byte ↔ [byte] <+: cursor.remaining := by
  rw [peek?_eq_getElem?, ← List.head?_eq_getElem?, List.head?_eq_some_iff]
  exact exists_congr fun rest => eq_comm

theorem remaining_skip (cursor : Cursor) (count : Nat) :
    (cursor.skip count).remaining = cursor.remaining.drop count := by
  rw [remaining, remaining, List.drop_drop]
  rfl

/-- Bytes lie ahead in two parts when the second part lies ahead once the first is skipped. -/
theorem append_prefix_iff {cursor : Cursor} {front back : List UInt8} :
    front ++ back <+: cursor.remaining ↔
      front <+: cursor.remaining ∧ back <+: (cursor.skip front.length).remaining := by
  rw [remaining_skip]
  constructor
  · rintro ⟨rest, total⟩
    rw [← total, List.append_assoc, List.drop_left]
    exact ⟨List.prefix_append front _, List.prefix_append back rest⟩
  · rintro ⟨⟨rest, total⟩, behind⟩
    rw [← total, List.drop_left] at behind
    rw [← total]
    exact (List.prefix_append_right_inj front).mpr behind

theorem cons_prefix_iff {cursor : Cursor} {byte : UInt8} {later : List UInt8} :
    byte :: later <+: cursor.remaining ↔
      cursor.peek? 0 = some byte ∧ later <+: (cursor.skip 1).remaining := by
  rw [peek?_eq_some_iff]
  exact @append_prefix_iff cursor [byte] later

theorem length_remaining (cursor : Cursor) :
    cursor.remaining.length = cursor.code.size - cursor.position := by
  rw [remaining, List.length_drop, Array.length_toList]

theorem skip_skip (cursor : Cursor) (first second : Nat) :
    (cursor.skip first).skip second = cursor.skip (first + second) := by
  rw [skip, skip, skip, Nat.add_assoc]

theorem length_remaining_skip (cursor : Cursor) (count : Nat) :
    (cursor.skip count).remaining.length = cursor.remaining.length - count := by
  rw [remaining_skip, List.length_drop]

end Cursor

/-! ### Readers of fixed width -/

/-- The reader takes a fixed number of bytes and answers with the value for which they stand; it
fails for want of code when fewer remain. Every string of that many bytes stands for a value. -/
structure Reader.Reads {α : Type} (reader : Reader α) (width : Nat)
    (format : α → List UInt8 → Prop) : Prop where
  length_eq : ∀ {value bytes}, format value bytes → bytes.length = width
  exists_value : ∀ bytes : List UInt8, bytes.length = width → ∃ value, format value bytes
  attempt_eq : ∀ {value bytes} {cursor : Cursor}, format value bytes →
    bytes <+: cursor.remaining → reader.attempt cursor = (.ok value, cursor.skip width)
  endOfCode : ∀ {cursor : Cursor}, cursor.remaining.length < width →
    (reader.attempt cursor).1 = .error .endOfCode

namespace Reader.Reads

variable {α β : Type}

/-- Where enough bytes remain, some value lies ahead. -/
theorem exists_front {reader : Reader α} {width : Nat} {format : α → List UInt8 → Prop}
    (reads : reader.Reads width format) {cursor : Cursor}
    (enough : width ≤ cursor.remaining.length) :
    ∃ value bytes, format value bytes ∧ bytes <+: cursor.remaining := by
  obtain ⟨value, here⟩ := reads.exists_value (cursor.remaining.take width)
    (by rw [List.length_take, Nat.min_eq_left enough])
  exact ⟨value, _, here, List.take_prefix _ _⟩

theorem congr {reader : Reader α} {width : Nat} {format other : α → List UInt8 → Prop}
    (reads : reader.Reads width format)
    (same : ∀ value bytes, other value bytes ↔ format value bytes) :
    reader.Reads width other := by
  have equal : other = format := funext fun value => funext fun bytes => propext (same value bytes)
  rwa [equal]

theorem pure (value : α) : (Pure.pure value : Reader α).Reads 0 fun answer bytes =>
    answer = value ∧ bytes = [] where
  length_eq := by
    rintro _ _ ⟨-, rfl⟩
    rfl
  exists_value bytes empty := ⟨value, rfl, List.eq_nil_of_length_eq_zero empty⟩
  attempt_eq := by
    rintro _ _ cursor ⟨rfl, rfl⟩ -
    rfl
  endOfCode short := absurd short (Nat.not_lt_zero _)

/-- Two readers of fixed width that follow each other read the concatenated bytes. -/
theorem bind {first : Reader α} {next : α → Reader β} {width more : Nat}
    {format : α → List UInt8 → Prop} {later : α → β → List UInt8 → Prop}
    (reads : first.Reads width format)
    (continues : ∀ value, (next value).Reads more (later value)) :
    Reader.Reads (first >>= next) (width + more) fun answer bytes =>
      ∃ value front back, bytes = front ++ back ∧ format value front ∧ later value answer back where
  length_eq := by
    rintro answer _ ⟨value, front, back, rfl, here, there⟩
    rw [List.length_append, reads.length_eq here, (continues value).length_eq there]
  exists_value bytes enough := by
    obtain ⟨value, here⟩ := reads.exists_value (bytes.take width) (by rw [List.length_take]; omega)
    obtain ⟨answer, there⟩ :=
      (continues value).exists_value (bytes.drop width) (by rw [List.length_drop]; omega)
    exact ⟨answer, value, _, _, (List.take_append_drop width bytes).symm, here, there⟩
  attempt_eq := by
    rintro answer _ cursor ⟨value, front, back, rfl, here, there⟩ ahead
    obtain ⟨first, behind⟩ := Cursor.append_prefix_iff.mp ahead
    rw [reads.length_eq here] at behind
    rw [Reader.attempt_bind, reads.attempt_eq here first]
    exact ((continues value).attempt_eq there behind).trans (by rw [Cursor.skip_skip])
  endOfCode := by
    intro cursor short
    rw [Reader.attempt_bind]
    rcases Nat.lt_or_ge cursor.remaining.length width with none | enough
    · have failed := reads.endOfCode none
      rcases outcome : first.attempt cursor with ⟨fault | value, reached⟩ <;> rw [outcome] at failed
      · cases failed
        rfl
      · cases failed
    · obtain ⟨value, bytes, here, ahead⟩ := reads.exists_front enough
      rw [reads.attempt_eq here ahead]
      refine (continues value).endOfCode ?_
      rw [Cursor.length_remaining_skip]
      omega

/-- What is done with the value that was read takes no bytes. -/
theorem map {reader : Reader α} {width : Nat} {format : α → List UInt8 → Prop}
    (reads : reader.Reads width format) (change : α → β) :
    Reader.Reads (do return change (← reader)) width fun answer bytes =>
      ∃ value, answer = change value ∧ format value bytes := by
  refine (reads.bind fun value => pure (change value)).congr fun answer bytes => ?_
  constructor
  · rintro ⟨value, rfl, here⟩
    exact ⟨value, bytes, [], (List.append_nil bytes).symm, here, rfl, rfl⟩
  · rintro ⟨value, front, _, rfl, here, rfl, rfl⟩
    exact ⟨value, rfl, by rwa [List.append_nil]⟩

end Reader.Reads

/-! ### Readers that fail without a trace -/

namespace Reader

variable {α β : Type}

/-- Where the reader fails, it leaves the cursor as it was. -/
def Atomic (reader : Reader α) : Prop :=
  ∀ ⦃cursor later fault⦄, reader.attempt cursor = (.error fault, later) → later = cursor

/-- What is done with the value that was read cannot fail any more. -/
theorem Atomic.map {reader : Reader α} (atomic : reader.Atomic) (change : α → β) :
    Atomic (do return change (← reader)) := by
  intro cursor later fault failed
  rw [attempt_bind] at failed
  rcases outcome : reader.attempt cursor with ⟨_ | value, reached⟩ <;> rw [outcome] at failed
  · cases failed
    exact atomic outcome
  · cases failed

end Reader

/-! ### Bytes and numbers -/

namespace Cursor

theorem atomic_readU8 : Reader.Atomic readU8 := by
  intro cursor later fault failed
  rw [attempt_readU8] at failed
  split at failed <;> cases failed
  rfl

theorem atomic_readU16 : Reader.Atomic readU16 := by
  intro cursor later fault failed
  rw [attempt_readU16] at failed
  split at failed <;> cases failed
  rfl

theorem reads_readU8 : Reader.Reads readU8 1 fun byte bytes => bytes = [byte] where
  length_eq := by
    rintro byte _ rfl
    rfl
  exists_value bytes one := by
    obtain ⟨byte, rfl⟩ := List.length_eq_one_iff.mp one
    exact ⟨byte, rfl⟩
  attempt_eq := by
    rintro byte _ cursor rfl ⟨rest, ahead⟩
    rw [attempt_readU8, peek?_eq_getElem?, ← ahead]
    rfl
  endOfCode := by
    intro cursor short
    rw [attempt_readU8, peek?_eq_getElem?, List.getElem?_eq_none (Nat.le_of_lt_succ short)]

theorem reads_readU16 : Reader.Reads readU16 2 fun number bytes => bytes = bigEndian number where
  length_eq := by
    rintro number _ rfl
    rfl
  exists_value
    | [high, low], _ => ⟨_, (bigEndian_ofNat high low).symm⟩
  attempt_eq := by
    rintro number bytes cursor meaning ⟨rest, ahead⟩
    obtain ⟨high, low, rfl⟩ : ∃ high low, bytes = [high, low] := ⟨_, _, meaning⟩
    rw [attempt_readU16, peek?_eq_getElem?, peek?_eq_getElem?, ← ahead]
    simp only [List.cons_append, List.getElem?_cons_zero, List.getElem?_cons_succ,
      eq_of_bigEndian_eq meaning.symm]
  endOfCode := by
    intro cursor short
    rw [attempt_readU16, peek?_eq_getElem? _ 1, List.getElem?_eq_none (Nat.le_of_lt_succ short)]
    cases cursor.peek? 0 <;> rfl

theorem reads_readI8 : Reader.Reads readI8 1 fun number bytes => bytes = [number.toUInt8] := by
  refine (reads_readU8.map UInt8.toInt8).congr fun number bytes => ?_
  constructor
  · rintro rfl
    exact ⟨_, number.toInt8_toUInt8.symm, rfl⟩
  · rintro ⟨byte, rfl, rfl⟩
    rfl

theorem reads_readI16 :
    Reader.Reads readI16 2 fun number bytes => bytes = bigEndian number.toUInt16 := by
  refine (reads_readU16.map UInt16.toInt16).congr fun number bytes => ?_
  constructor
  · rintro rfl
    exact ⟨_, number.toInt16_toUInt16.symm, rfl⟩
  · rintro ⟨half, rfl, rfl⟩
    rfl

end Cursor

/-! ### The encodings of an instruction -/

/-- The number of bytes that follow the byte of an op code. -/
def Opcode.operandCount : Opcode → Nat
  | .load _ | .store _ | .ret => 1
  | .iinc => 2
  | .invokedynamic => 4
  | .nop | .loadShort .. | .storeShort .. | .shuffle _ | .monitorenter | .monitorexit | .wide
  | .reserved _ => 0

namespace Instruction

/-- The bytes with which the operands of an instruction may be written. The last two bytes of a
call site are free. -/
def OperandBytes : Instruction → List UInt8 → Prop
  | load _ index, bytes | store _ index, bytes | ret index, bytes => bytes = [index]
  | iinc index constant, bytes => bytes = [index, constant.toUInt8]
  | invokedynamic callSite, bytes => ∃ third fourth, bytes = bigEndian callSite ++ [third, fourth]
  | nop, bytes | loadShort _ _, bytes | storeShort _ _, bytes | shuffle _, bytes
  | monitorenter, bytes | monitorexit, bytes | wide, bytes | reserved _, bytes => bytes = []

/-- The bytes are an encoding of the instruction: the byte of its op code and then its
operands. -/
def EncodedAs (instruction : Instruction) (bytes : List UInt8) : Prop :=
  ∃ operands, bytes = instruction.opcode.byte :: operands ∧ instruction.OperandBytes operands

theorem EncodedAs.length_pos {instruction : Instruction} {bytes : List UInt8}
    (encoded : instruction.EncodedAs bytes) : 0 < bytes.length := by
  obtain ⟨operands, rfl, -⟩ := encoded
  exact Nat.succ_pos _

end Instruction

/-- The operands of an op code are read in their format. -/
theorem Opcode.reads_readOperands (opcode : Opcode) :
    opcode.readOperands.Reads opcode.operandCount fun instruction bytes =>
      instruction.opcode = opcode ∧ instruction.OperandBytes bytes := by
  cases opcode
  case load | store | ret =>
    refine (Cursor.reads_readU8.map _).congr fun instruction bytes => ?_
    cases instruction <;> simp [Instruction.opcode, Instruction.OperandBytes, and_assoc]
  case iinc =>
    refine (Cursor.reads_readU8.bind fun index => Cursor.reads_readI8.map _).congr
      fun instruction bytes => ?_
    constructor
    · rintro ⟨same, here⟩
      cases instruction <;> cases same
      exact ⟨_, [_], _, here, rfl, _, rfl, rfl⟩
    · rintro ⟨index, _, _, rfl, rfl, constant, rfl, rfl⟩
      exact ⟨rfl, rfl⟩
  case invokedynamic =>
    refine (Cursor.reads_readU16.bind fun callSite => Cursor.reads_readU16.map _).congr
      fun instruction bytes => ?_
    constructor
    · rintro ⟨same, here⟩
      cases instruction <;> cases same
      obtain ⟨third, fourth, rfl⟩ := here
      exact ⟨_, _, _, rfl, rfl, _, rfl, (bigEndian_ofNat third fourth).symm⟩
    · rintro ⟨callSite, _, _, rfl, rfl, ignored, rfl, rfl⟩
      exact ⟨rfl, _, _, rfl⟩
  all_goals
    refine (Reader.Reads.pure _).congr fun instruction bytes => ?_
    cases instruction <;> simp [Instruction.opcode, Instruction.OperandBytes]

/-! ### Reading an instruction from its encoding -/

namespace Instruction

variable {cursor next : Cursor} {instruction : Instruction}

/-- An encoding that lies ahead is read as the instruction. -/
theorem attempt_read_of_encodedAs {encoding : List UInt8} (encoded : instruction.EncodedAs encoding)
    (ahead : encoding <+: cursor.remaining) :
    Reader.attempt Instruction.read cursor = (.ok instruction, cursor.skip encoding.length) := by
  obtain ⟨operands, rfl, written⟩ := encoded
  obtain ⟨first, behind⟩ := Cursor.cons_prefix_iff.mp ahead
  have operandsRead := instruction.opcode.reads_readOperands.attempt_eq ⟨rfl, written⟩ behind
  rw [Instruction.read, Reader.attempt_bind, Opcode.attempt_read]
  simp only [first, Opcode.ofByte?_byte, operandsRead, Cursor.skip_skip, List.length_cons,
    instruction.opcode.reads_readOperands.length_eq ⟨rfl, written⟩, Nat.add_comm]

theorem attempt_read_of_nothing (ended : cursor.peek? 0 = none) :
    Reader.attempt Instruction.read cursor = (.error .endOfCode, cursor) := by
  rw [Instruction.read, Reader.attempt_bind, Opcode.attempt_read, ended]

theorem attempt_read_of_noOpcode {byte : UInt8} (here : cursor.peek? 0 = some byte)
    (unknown : ∀ opcode : Opcode, opcode.byte ≠ byte) :
    Reader.attempt Instruction.read cursor =
      (.error (.unsupportedOpcode byte), cursor.skip 1) := by
  have notFound : Opcode.ofByte? byte = none :=
    Option.eq_none_iff_forall_ne_some.mpr fun opcode found =>
      unknown opcode (Opcode.ofByte?_eq_some_iff.mp found)
  rw [Instruction.read, Reader.attempt_bind, Opcode.attempt_read]
  simp only [here, notFound]

/-- An op code whose operands are cut off is not read. -/
theorem endOfCode_of_short {opcode : Opcode} (here : cursor.peek? 0 = some opcode.byte)
    (short : cursor.remaining.length < 1 + opcode.operandCount) :
    (Reader.attempt Instruction.read cursor).1 = .error .endOfCode := by
  have ahead := (Cursor.peek?_eq_some_iff.mp here).length_le
  have missing : (cursor.skip 1).remaining.length < opcode.operandCount := by
    rw [List.length_singleton] at ahead
    rw [Cursor.length_remaining_skip]
    omega
  have failed := opcode.reads_readOperands.endOfCode missing
  rw [Instruction.read, Reader.attempt_bind, Opcode.attempt_read]
  simp only [here, Opcode.ofByte?_byte]
  exact failed

/-- Behind an op code, enough bytes always stand for operands of it. -/
theorem exists_encodedAs {opcode : Opcode} (here : cursor.peek? 0 = some opcode.byte)
    (enough : 1 + opcode.operandCount ≤ cursor.remaining.length) :
    ∃ (instruction : Instruction) (encoding : List UInt8),
      encoding <+: cursor.remaining ∧ instruction.EncodedAs encoding := by
  have behind : opcode.operandCount ≤ (cursor.skip 1).remaining.length := by
    rw [Cursor.length_remaining_skip]
    omega
  obtain ⟨instruction, operands, ⟨rfl, written⟩, follow⟩ :=
    opcode.reads_readOperands.exists_front behind
  exact ⟨instruction, _, Cursor.cons_prefix_iff.mpr ⟨here, follow⟩, operands, rfl, written⟩

/-- Ahead of a cursor lies nothing, a byte that is no op code, an op code whose operands are cut
off, or the encoding of an instruction. -/
theorem read_cases (cursor : Cursor) :
    cursor.peek? 0 = none ∨
    (∃ byte, cursor.peek? 0 = some byte ∧ ∀ opcode : Opcode, opcode.byte ≠ byte) ∨
    (∃ opcode : Opcode, cursor.peek? 0 = some opcode.byte ∧
      cursor.remaining.length < 1 + opcode.operandCount) ∨
    ∃ (instruction : Instruction) (encoding : List UInt8),
      encoding <+: cursor.remaining ∧ instruction.EncodedAs encoding := by
  cases here : cursor.peek? 0 with
  | none => exact Or.inl rfl
  | some byte =>
    by_cases known : ∃ opcode : Opcode, opcode.byte = byte
    · obtain ⟨opcode, rfl⟩ := known
      rcases Nat.lt_or_ge cursor.remaining.length (1 + opcode.operandCount) with short | enough
      · exact Or.inr (Or.inr (Or.inl ⟨opcode, rfl, short⟩))
      · exact Or.inr (Or.inr (Or.inr (exists_encodedAs here enough)))
    · exact Or.inr (Or.inl ⟨byte, rfl, not_exists.mp known⟩)

/-- What is read as an instruction is an encoding of it. -/
theorem encodedAs_of_read
    (read : Reader.attempt Instruction.read cursor = (.ok instruction, next)) :
    ∃ encoding, encoding <+: cursor.remaining ∧ instruction.EncodedAs encoding ∧
      next = cursor.skip encoding.length := by
  rcases read_cases cursor with nothing | ⟨byte, here, unknown⟩ | ⟨opcode, here, short⟩ |
    ⟨other, encoding, ahead, encoded⟩
  · cases (attempt_read_of_nothing nothing).symm.trans read
  · cases (attempt_read_of_noOpcode here unknown).symm.trans read
  · cases (endOfCode_of_short here short).symm.trans (congrArg Prod.fst read)
  · cases (attempt_read_of_encodedAs encoded ahead).symm.trans read
    exact ⟨encoding, ahead, encoded, rfl⟩

/-- A byte is reported as unsupported exactly when it lies ahead and is no op code. -/
theorem read_eq_unsupportedOpcode_iff (cursor : Cursor) (byte : UInt8) :
    (Reader.attempt Instruction.read cursor).1 = .error (.unsupportedOpcode byte) ↔
      cursor.peek? 0 = some byte ∧ ∀ opcode : Opcode, opcode.byte ≠ byte := by
  constructor
  · intro failed
    rcases read_cases cursor with nothing | ⟨other, here, unknown⟩ | ⟨opcode, here, short⟩ |
      ⟨instruction, encoding, ahead, encoded⟩
    · rw [attempt_read_of_nothing nothing] at failed
      cases failed
    · rw [attempt_read_of_noOpcode here unknown] at failed
      cases failed
      exact ⟨here, unknown⟩
    · cases (endOfCode_of_short here short).symm.trans failed
    · rw [attempt_read_of_encodedAs encoded ahead] at failed
      cases failed
  · rintro ⟨here, unknown⟩
    rw [attempt_read_of_noOpcode here unknown]

/-- The code is reported as cut off exactly when nothing lies ahead, or an op code whose operands
do not all lie inside the code. -/
theorem read_eq_endOfCode_iff (cursor : Cursor) :
    (Reader.attempt Instruction.read cursor).1 = .error .endOfCode ↔
      cursor.peek? 0 = none ∨
        ∃ opcode : Opcode, cursor.peek? 0 = some opcode.byte ∧
          cursor.remaining.length < 1 + opcode.operandCount := by
  constructor
  · intro failed
    rcases read_cases cursor with nothing | ⟨other, here, unknown⟩ | short |
      ⟨instruction, encoding, ahead, encoded⟩
    · exact Or.inl nothing
    · rw [attempt_read_of_noOpcode here unknown] at failed
      cases failed
    · exact Or.inr short
    · rw [attempt_read_of_encodedAs encoded ahead] at failed
      cases failed
  · rintro (nothing | ⟨opcode, here, short⟩)
    · rw [attempt_read_of_nothing nothing]
    · exact endOfCode_of_short here short

/-- The instruction reader accepts exactly the encodings of the instructions: it reads an
instruction wherever an encoding of it stands, and it reads nothing else. It reports an
unsupported op code exactly when the byte at the cursor is none, and then goes on behind it; it
reports the end of the code exactly when the cursor has passed the end or an operand is cut
off. -/
theorem read_accepts_encodings :
    (∀ (before encoding after : List UInt8) (instruction : Instruction),
      instruction.EncodedAs encoding →
        Reader.attempt Instruction.read
            ⟨(before ++ encoding ++ after).toArray, before.length⟩ =
          (.ok instruction,
            ⟨(before ++ encoding ++ after).toArray, before.length + encoding.length⟩)) ∧
    ∀ (code : Array UInt8) (position : Nat),
      (∀ instruction next,
        Reader.attempt Instruction.read ⟨code, position⟩ = (.ok instruction, next) →
          next.code = code ∧ position ≤ next.position ∧ next.position ≤ code.size ∧
            instruction.EncodedAs (code.extract position next.position).toList) ∧
      (∀ byte,
        ((Reader.attempt Instruction.read ⟨code, position⟩).1 =
            .error (.unsupportedOpcode byte) ↔
          code[position]? = some byte ∧ ∀ opcode : Opcode, opcode.byte ≠ byte) ∧
        ((Reader.attempt Instruction.read ⟨code, position⟩).1 =
            .error (.unsupportedOpcode byte) →
          (Reader.attempt Instruction.read ⟨code, position⟩).2 = ⟨code, position + 1⟩)) ∧
      ((Reader.attempt Instruction.read ⟨code, position⟩).1 = .error .endOfCode ↔
        code.size ≤ position ∨ ∃ opcode : Opcode, code[position]? = some opcode.byte ∧
          code.size < position + 1 + opcode.operandCount) := by
  refine ⟨?_, fun code position => ⟨?_, ?_, ?_⟩⟩
  · intro before encoding after instruction encoded
    refine attempt_read_of_encodedAs encoded ?_
    rw [Cursor.remaining, List.append_assoc, List.drop_left]
    exact List.prefix_append encoding after
  · intro instruction next read
    obtain ⟨encoding, ahead, encoded, rfl⟩ := encodedAs_of_read read
    have bytes : (code.extract position (position + encoding.length)).toList = encoding := by
      rw [Array.toList_extract, List.extract_eq_take_drop, Nat.add_sub_cancel_left]
      exact (List.prefix_iff_eq_take.mp ahead).symm
    have within : encoding.length ≤ code.size - position := by
      rw [← Cursor.length_remaining ⟨code, position⟩]
      exact ahead.length_le
    have positive := encoded.length_pos
    refine ⟨rfl, Nat.le_add_right _ _, ?_, ?_⟩
    · show position + encoding.length ≤ code.size
      omega
    · show instruction.EncodedAs (code.extract position (position + encoding.length)).toList
      rwa [bytes]
  · intro byte
    have reported := read_eq_unsupportedOpcode_iff ⟨code, position⟩ byte
    refine ⟨reported, fun failed => ?_⟩
    obtain ⟨here, unknown⟩ := reported.mp failed
    rw [attempt_read_of_noOpcode here unknown]
    rfl
  · have beyond (count : Nat) : code.size - position < 1 + count ↔
        code.size < position + 1 + count := by omega
    rw [read_eq_endOfCode_iff]
    simp only [Cursor.peek?, Cursor.length_remaining, Nat.add_zero, Array.getElem?_eq_none_iff,
      beyond]

/-- An increment by a negative constant is read in the middle of other bytes and is encoded by
the bytes that were taken; the byte 0x01 alone is taken and reported. -/
theorem read_accepts_iinc :
    Reader.attempt Instruction.read ⟨#[0x00, 0x84, 0x02, 0xfd, 0xff], 1⟩ =
        (.ok (.iinc 2 (-3)), ⟨#[0x00, 0x84, 0x02, 0xfd, 0xff], 4⟩) ∧
      Instruction.EncodedAs (.iinc 2 (-3)) [0x84, 0x02, 0xfd] ∧
      (Reader.attempt Instruction.read ⟨#[0x01], 0⟩).2 = ⟨#[0x01], 1⟩ := by
  have read := read_accepts_encodings.1 [0x00] [0x84, 0x02, 0xfd] [0xff] (.iinc 2 (-3))
    ⟨[0x02, 0xfd], rfl, rfl⟩
  have taken := (read_accepts_encodings.2 #[0x00, 0x84, 0x02, 0xfd, 0xff] 1).1 _ _ read
  have unknown : ∀ opcode ∈ Opcode.all, opcode.byte ≠ 0x01 := by decide
  have reported := (read_accepts_encodings.2 #[0x01] 0).2.1 0x01
  exact ⟨read, taken.2.2.2,
    reported.2 (reported.1.mpr ⟨rfl, fun opcode => unknown opcode opcode.mem_all⟩)⟩

end Instruction

end BytecodeMachine
