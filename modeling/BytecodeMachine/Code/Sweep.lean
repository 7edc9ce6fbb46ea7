/-
This file reads code from one end to the other, one instruction after the
other, and goes on behind every fault. Main statement: reading an instruction
inside the code moves strictly forward and not beyond the end, whether it
succeeds or fails, so a sweep always ends.
-/

import BytecodeMachine.Code.Instruction

namespace BytecodeMachine

/-! ### Readers that run forward -/

/-- A reader runs forward when it keeps the code, never moves back and never passes the end. -/
def Reader.Forward {α : Type} (reader : Reader α) : Prop :=
  ∀ cursor : Cursor, (reader.attempt cursor).2.code = cursor.code ∧
    cursor.position ≤ (reader.attempt cursor).2.position ∧
    (reader.attempt cursor).2.position ≤ max cursor.position cursor.code.size

namespace Reader

variable {α β : Type}

/-- The cursor after two readers in a row is that of the first unless it succeeds. -/
theorem attempt_bind (first : Reader α) (next : α → Reader β) (cursor : Cursor) :
    Reader.attempt (first >>= next) cursor =
      match first.attempt cursor with
      | (.ok value, reached) => (next value).attempt reached
      | (.error fault, reached) => (.error fault, reached) := by
  simp only [attempt, bind, EStateM.bind]
  cases first cursor <;> rfl

theorem attempt_pure (value : α) (cursor : Cursor) :
    Reader.attempt (pure value) cursor = (.ok value, cursor) := rfl

theorem attempt_throw (fault : ReadFault) (cursor : Cursor) :
    Reader.attempt (throw fault : Reader α) cursor = (.error fault, cursor) := rfl

theorem Forward.pure (value : α) : Forward (Pure.pure value) := fun _ =>
  ⟨rfl, Nat.le_refl _, Nat.le_max_left _ _⟩

theorem Forward.throw (fault : ReadFault) : Forward (MonadExcept.throw fault : Reader α) :=
  fun _ => ⟨rfl, Nat.le_refl _, Nat.le_max_left _ _⟩

/-- Readers that run forward may follow each other. -/
theorem Forward.bind {first : Reader α} {next : α → Reader β} (forward : first.Forward)
    (later : ∀ value, (next value).Forward) : Forward (first >>= next) := by
  intro cursor
  have start := forward cursor
  rw [attempt_bind]
  rcases reached : first.attempt cursor with ⟨_ | value, middle⟩ <;> simp only [reached] at start ⊢
  · exact start
  · have stop := later value middle
    rw [start.1] at stop
    exact ⟨stop.1, by omega, by omega⟩

end Reader

namespace Cursor

theorem attempt_readU8 (cursor : Cursor) :
    Reader.attempt readU8 cursor =
      match cursor.peek? 0 with
      | some byte => (.ok byte, cursor.skip 1)
      | none => (.error .endOfCode, cursor) := by
  simp only [Reader.attempt, readU8]
  cases cursor.peek? 0 <;> rfl

theorem readU8_eq_ok_iff {cursor later : Cursor} {byte : UInt8} :
    Reader.attempt readU8 cursor = (.ok byte, later) ↔
      cursor.peek? 0 = some byte ∧ later = cursor.skip 1 := by
  rw [attempt_readU8]
  cases cursor.peek? 0 <;> simp [eq_comm]

theorem attempt_readU16 (cursor : Cursor) :
    Reader.attempt readU16 cursor =
      match cursor.peek? 0, cursor.peek? 1 with
      | some high, some low => (.ok (UInt16.ofNat (256 * high.toNat + low.toNat)), cursor.skip 2)
      | _, _ => (.error .endOfCode, cursor) := by
  simp only [Reader.attempt, readU16]
  cases cursor.peek? 0 <;> cases cursor.peek? 1 <;> rfl

theorem attempt_jumpTo (target : Nat) (cursor : Cursor) :
    Reader.attempt (jumpTo target) cursor =
      if target ≤ cursor.code.size then (.ok (), { cursor with position := target })
      else (.error (.invalidJump target), cursor) := by
  unfold Reader.attempt jumpTo
  by_cases within : target ≤ cursor.code.size
  · rw [if_pos within, if_pos within]
  · rw [if_neg within, if_neg within]

/-- A byte is there exactly when its offset lies inside the code. -/
theorem peek?_isSome_iff (cursor : Cursor) (ahead : Nat) :
    (cursor.peek? ahead).isSome ↔ cursor.position + ahead < cursor.code.size := by
  simp [peek?]

theorem forward_readU8 : Reader.Forward readU8 := by
  intro cursor
  rw [attempt_readU8]
  split
  · next byte found =>
    have inside := (cursor.peek?_isSome_iff 0).mp (Option.isSome_of_eq_some found)
    exact ⟨rfl, Nat.le_add_right _ _, Nat.le_trans inside (Nat.le_max_right _ _)⟩
  · exact ⟨rfl, Nat.le_refl _, Nat.le_max_left _ _⟩

theorem forward_readU16 : Reader.Forward readU16 := by
  intro cursor
  rw [attempt_readU16]
  split
  · next high low first second =>
    have inside := (cursor.peek?_isSome_iff 1).mp (Option.isSome_of_eq_some second)
    exact ⟨rfl, Nat.le_add_right _ _, Nat.le_trans inside (Nat.le_max_right _ _)⟩
  · exact ⟨rfl, Nat.le_refl _, Nat.le_max_left _ _⟩

theorem forward_readI8 : Reader.Forward readI8 :=
  forward_readU8.bind fun _ => .pure _

theorem forward_readI16 : Reader.Forward readI16 :=
  forward_readU16.bind fun _ => .pure _

end Cursor

/-! ### Reading an instruction -/

theorem Opcode.forward_readOperands (opcode : Opcode) : opcode.readOperands.Forward := by
  cases opcode
  case load | store | ret => exact Cursor.forward_readU8.bind fun _ => .pure _
  case iinc =>
    exact Cursor.forward_readU8.bind fun _ => Cursor.forward_readI8.bind fun _ => .pure _
  case invokedynamic =>
    exact Cursor.forward_readU16.bind fun _ => Cursor.forward_readU16.bind fun _ => .pure _
  all_goals exact .pure _

/-- The byte of an op code is taken whether it is one or not. -/
theorem Opcode.attempt_read (cursor : Cursor) :
    Reader.attempt Opcode.read cursor =
      match cursor.peek? 0 with
      | none => (.error .endOfCode, cursor)
      | some byte =>
        match Opcode.ofByte? byte with
        | some opcode => (.ok opcode, cursor.skip 1)
        | none => (.error (.unsupportedOpcode byte), cursor.skip 1) := by
  simp only [Opcode.read, Reader.attempt_bind, Cursor.attempt_readU8]
  cases cursor.peek? 0 with
  | none => rfl
  | some byte => dsimp only; cases Opcode.ofByte? byte <;> rfl

/-- Inside the code an instruction is read strictly forward, and the end is not passed. -/
theorem Instruction.read_advances {cursor : Cursor} (more : cursor.hasMore) :
    (Reader.attempt Instruction.read cursor).2.code = cursor.code ∧
      cursor.position < (Reader.attempt Instruction.read cursor).2.position ∧
      (Reader.attempt Instruction.read cursor).2.position ≤ cursor.code.size := by
  have inside : cursor.position < cursor.code.size := by simpa [Cursor.hasMore] using more
  obtain ⟨byte, found⟩ := Option.isSome_iff_exists.mp ((cursor.peek?_isSome_iff 0).mpr inside)
  simp only [Instruction.read, Reader.attempt_bind, Opcode.attempt_read, found]
  cases Opcode.ofByte? byte with
  | none => exact ⟨rfl, Nat.lt_succ_self _, inside⟩
  | some opcode =>
    have rest := opcode.forward_readOperands (cursor.skip 1)
    simp only [Cursor.skip] at rest ⊢
    exact ⟨rest.1, by omega, by omega⟩

/-! ### The sweep -/

/-- One reading of a sweep: where it began, what it gave, and where it left the cursor. -/
structure Reading where
  start : Nat
  result : Except ReadFault Instruction
  stop : Nat

/-- Reads instructions as long as there is more code, going on behind every fault. -/
def Cursor.sweep (cursor : Cursor) : List Reading :=
  if _ : cursor.hasMore then
    let outcome := Reader.attempt Instruction.read cursor
    ⟨cursor.position, outcome.1, outcome.2.position⟩ :: sweep outcome.2
  else []
termination_by cursor.code.size - cursor.position
decreasing_by
  obtain ⟨same, later, _⟩ := Instruction.read_advances ‹_›
  rw [same]
  exact Nat.sub_lt_sub_left (by simpa [hasMore] using ‹cursor.hasMore = true›) later

end BytecodeMachine
