/-
This file holds the cursor that reads the code of a method, in big-endian
order. A read either takes all of its bytes or leaves the cursor where it was,
so a fault never loses bytes. The cursor may stand beyond the end of the code;
every read fails there.
-/

import BytecodeMachine.Code.ReadFault

namespace BytecodeMachine

/-- A cursor is the code of a method and the offset of the byte to be read next. -/
structure Cursor where
  code : Array UInt8
  position : Nat
deriving DecidableEq

/-- A reader moves a cursor and answers with what it read; the cursor is kept on a fault. -/
abbrev Reader (α : Type) : Type :=
  EStateM ReadFault Cursor α

/-- What a reader answers at a cursor, and the cursor that it leaves. -/
def Reader.attempt {α : Type} (reader : Reader α) (cursor : Cursor) :
    Except ReadFault α × Cursor :=
  match reader cursor with
  | .ok value next => (.ok value, next)
  | .error fault next => (.error fault, next)

namespace Cursor

/-- The cursor before the first byte of the code. -/
def start (code : Array UInt8) : Cursor :=
  ⟨code, 0⟩

/-- Whether a byte remains to be read. -/
def hasMore (cursor : Cursor) : Bool :=
  cursor.position < cursor.code.size

/-- The byte that lies `ahead` bytes after the next one. -/
def peek? (cursor : Cursor) (ahead : Nat) : Option UInt8 :=
  cursor.code[cursor.position + ahead]?

/-- The cursor moved on by a number of bytes. -/
def skip (cursor : Cursor) (count : Nat) : Cursor :=
  { cursor with position := cursor.position + count }

/-! ### Reading -/

/-- Reads one unsigned byte. -/
def readU8 : Reader UInt8 := fun cursor =>
  match cursor.peek? 0 with
  | some byte => .ok byte (cursor.skip 1)
  | none => .error .endOfCode cursor

/-- Reads an unsigned number of two bytes, the high byte first. -/
def readU16 : Reader UInt16 := fun cursor =>
  match cursor.peek? 0, cursor.peek? 1 with
  | some high, some low => .ok (UInt16.ofNat (256 * high.toNat + low.toNat)) (cursor.skip 2)
  | _, _ => .error .endOfCode cursor

/-- Reads one byte as a number in two's complement. -/
def readI8 : Reader Int8 :=
  return (← readU8).toInt8

/-- Reads two bytes as a number in two's complement, the high byte first. -/
def readI16 : Reader Int16 :=
  return (← readU16).toInt16

/-- Moves to an offset of the code. The end of the code is allowed and leaves nothing to
read. -/
def jumpTo (target : Nat) : Reader Unit := fun cursor =>
  if target ≤ cursor.code.size then .ok () { cursor with position := target }
  else .error (.invalidJump target) cursor

end Cursor

end BytecodeMachine
