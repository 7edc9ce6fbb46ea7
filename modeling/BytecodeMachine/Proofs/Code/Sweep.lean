/-
This file follows the sweep over the code of a method. A reader that runs out of
code has read on as far as it could, so it leaves fewer bytes behind than the
number takes that it could not read. Main statement: whatever the bytes are, a
sweep goes strictly forward, over faults too, and stops exactly at the end of
the code.

As a function a sweep comes to an end by definition. What it does is therefore
described a second time, by a relation that only says when to read and when to
stop; that a sweep stops is then part of the statement.
-/

import BytecodeMachine.Proofs.Code.Encoding

namespace BytecodeMachine

/-! ### Readers that run out of code -/

/-- Where the reader runs out of code, it leaves fewer bytes unread than a bound. -/
def Reader.LeavesBelow {α : Type} (bound : Nat) (reader : Reader α) : Prop :=
  ∀ cursor : Cursor, (reader.attempt cursor).1 = .error .endOfCode →
    (reader.attempt cursor).2.remaining.length < bound

namespace Reader

variable {α β : Type} {bound : Nat}

theorem LeavesBelow.pure (value : α) : LeavesBelow bound (Pure.pure value : Reader α) := nofun

theorem LeavesBelow.bind {first : Reader α} {next : α → Reader β}
    (below : first.LeavesBelow bound) (later : ∀ value, (next value).LeavesBelow bound) :
    LeavesBelow bound (first >>= next) := by
  intro cursor failed
  have stopped := below cursor
  rw [attempt_bind] at failed ⊢
  rcases outcome : first.attempt cursor with ⟨fault | value, reached⟩ <;>
    simp only [outcome] at failed stopped ⊢
  · exact stopped (congrArg Except.error (Except.error.inj failed))
  · exact later value reached failed

/-- A reader of fixed width that does not move when it fails leaves fewer bytes than its width. -/
theorem Reads.leavesBelow {reader : Reader α} {format : α → List UInt8 → Prop}
    (reads : reader.Reads bound format) (atomic : reader.Atomic) : reader.LeavesBelow bound := by
  intro cursor failed
  have stayed : (reader.attempt cursor).2 = cursor := atomic (Prod.ext failed rfl)
  rw [stayed]
  refine Nat.lt_of_not_le fun enough => ?_
  obtain ⟨value, bytes, here, ahead⟩ := reads.exists_front enough
  rw [reads.attempt_eq here ahead] at failed
  cases failed

end Reader

namespace Cursor

theorem leavesBelow_readU8 : Reader.LeavesBelow 1 readU8 :=
  reads_readU8.leavesBelow atomic_readU8

theorem leavesBelow_readU16 : Reader.LeavesBelow 2 readU16 :=
  reads_readU16.leavesBelow atomic_readU16

theorem leavesBelow_readI8 : Reader.LeavesBelow 1 readI8 :=
  leavesBelow_readU8.bind fun _ => .pure _

end Cursor

/-! ### Instructions that are cut off -/

/-- Only a call site has an operand of two bytes, of which one may be left. -/
theorem Opcode.leavesBelow_readOperands (opcode : Opcode) :
    opcode.readOperands.LeavesBelow (if opcode = .invokedynamic then 2 else 1) := by
  cases opcode <;> simp only [reduceCtorEq, if_true, if_false]
  case load | store | ret => exact Cursor.leavesBelow_readU8.bind fun _ => .pure _
  case iinc =>
    exact Cursor.leavesBelow_readU8.bind fun _ => Cursor.leavesBelow_readI8.bind fun _ => .pure _
  case invokedynamic =>
    exact Cursor.leavesBelow_readU16.bind fun _ =>
      Cursor.leavesBelow_readU16.bind fun _ => .pure _
  all_goals exact .pure _

/-- An instruction that is cut off is read to the end of the code, but for one byte at most, and
that byte is left only by a call site. -/
theorem Instruction.remaining_of_endOfCode {cursor : Cursor} (more : cursor.hasMore)
    (failed : (Reader.attempt Instruction.read cursor).1 = .error .endOfCode) :
    (Reader.attempt Instruction.read cursor).2.remaining.length ≤ 1 ∧
      ((Reader.attempt Instruction.read cursor).2.remaining.length = 1 →
        cursor.peek? 0 = some Opcode.invokedynamic.byte) := by
  have inside : cursor.position < cursor.code.size := by simpa [Cursor.hasMore] using more
  obtain ⟨byte, here⟩ := Option.isSome_iff_exists.mp ((cursor.peek?_isSome_iff 0).mpr inside)
  rw [Instruction.read, Reader.attempt_bind, Opcode.attempt_read] at failed ⊢
  simp only [here] at failed ⊢
  cases known : Opcode.ofByte? byte with
  | none =>
    rw [known] at failed
    cases failed
  | some opcode =>
    rw [known] at failed
    have below := opcode.leavesBelow_readOperands _ failed
    dsimp only
    split at below
    · next callSite =>
      subst callSite
      rw [Opcode.ofByte?_eq_some_iff.mp known]
      exact ⟨Nat.le_of_lt_succ below, fun _ => rfl⟩
    · exact ⟨Nat.le_of_lt_succ (Nat.lt_succ_of_lt below), fun one => absurd below (by omega)⟩

/-! ### Sweeps -/

namespace Cursor

/-- A sweep from a cursor makes certain readings and stops at another cursor: it reads as long as
there is more code, from wherever the reading before has left the cursor. -/
inductive Sweeps : Cursor → List Reading → Cursor → Prop
  | stop {cursor : Cursor} (ended : cursor.hasMore = false) : Sweeps cursor [] cursor
  | read {cursor last : Cursor} {later : List Reading} (more : cursor.hasMore)
      (rest : Sweeps (Reader.attempt Instruction.read cursor).2 later last) :
    Sweeps cursor (⟨cursor.position, (Reader.attempt Instruction.read cursor).1,
      (Reader.attempt Instruction.read cursor).2.position⟩ :: later) last

variable {cursor last : Cursor} {readings : List Reading}

/-- Every sweep stops, with the readings of the function, at the end of the code or, if it began
behind that, where it began. -/
theorem sweeps_sweep (cursor : Cursor) :
    cursor.Sweeps cursor.sweep
      { cursor with position := max cursor.position cursor.code.size } := by
  fun_induction sweep cursor with
  | case1 cursor more outcome inductionHypothesis =>
    obtain ⟨sameCode, onward, notPast⟩ : outcome.2.code = cursor.code ∧
        cursor.position < outcome.2.position ∧ outcome.2.position ≤ cursor.code.size :=
      Instruction.read_advances more
    rw [sameCode, Nat.max_eq_right notPast] at inductionHypothesis
    rw [Nat.max_eq_right (Nat.le_trans (Nat.le_of_lt onward) notPast)]
    exact .read more inductionHypothesis
  | case2 cursor ended =>
    have beyond : cursor.code.size ≤ cursor.position := by simpa [hasMore] using ended
    rw [Nat.max_eq_left beyond]
    exact .stop (Bool.eq_false_iff.mpr ended)

/-- There is only one sweep from a cursor. -/
theorem Sweeps.unique {otherLast : Cursor} {others : List Reading}
    (one : cursor.Sweeps readings last) (other : cursor.Sweeps others otherLast) :
    others = readings ∧ otherLast = last := by
  induction one generalizing others with
  | stop ended =>
    cases other with
    | stop => exact ⟨rfl, rfl⟩
    | read more => cases ended.symm.trans more
  | read more rest inductionHypothesis =>
    cases other with
    | stop ended => cases ended.symm.trans more
    | read _ otherRest =>
      obtain ⟨rfl, rfl⟩ := inductionHypothesis otherRest
      exact ⟨rfl, rfl⟩

/-- The readings of a sweep begin at the cursor or behind it, and none of them takes nothing. -/
theorem Sweeps.onward (sweeps : cursor.Sweeps readings last) :
    (∀ reading ∈ readings, cursor.position ≤ reading.start) ∧
      cursor.position + readings.length ≤ last.position := by
  induction sweeps with
  | stop => exact ⟨nofun, Nat.le_refl _⟩
  | read more rest inductionHypothesis =>
    obtain ⟨-, onward, -⟩ := Instruction.read_advances more
    obtain ⟨behind, apart⟩ := inductionHypothesis
    refine ⟨List.forall_mem_cons.mpr ⟨Nat.le_refl _, fun reading member => ?_⟩, ?_⟩
    · exact Nat.le_trans (Nat.le_of_lt onward) (behind reading member)
    · rw [List.length_cons]
      omega

theorem Sweeps.increasing (sweeps : cursor.Sweeps readings last) :
    readings.Pairwise fun one later => one.start < later.start := by
  induction sweeps with
  | stop => exact .nil
  | read more rest inductionHypothesis =>
    obtain ⟨-, onward, -⟩ := Instruction.read_advances more
    refine .cons (fun reading member => ?_) inductionHypothesis
    exact Nat.lt_of_lt_of_le onward (rest.onward.1 reading member)

/-- Inside the code an instruction is read strictly forward and not beyond the end, whether that
succeeds or fails; when it is cut off, one byte at most remains unread, and one only behind a call
site. So a sweep always stops, after no more readings than there are bytes, each of which begins
behind the one before, and it stops exactly at the end of the code. -/
theorem sweep_ends (code : Array UInt8) :
    (∀ position, position < code.size →
      let outcome := Reader.attempt Instruction.read ⟨code, position⟩
      outcome.2.code = code ∧ position < outcome.2.position ∧ outcome.2.position ≤ code.size ∧
      (outcome.1 = .error .endOfCode →
        code.size ≤ outcome.2.position + 1 ∧
        (outcome.2.position + 1 = code.size →
          code[position]? = some Opcode.invokedynamic.byte))) ∧
    ∀ position, position ≤ code.size →
      let readings := sweep ⟨code, position⟩
      (∀ made last, Sweeps ⟨code, position⟩ made last ↔
        made = readings ∧ last = ⟨code, code.size⟩) ∧
      readings.length ≤ code.size - position ∧
      readings.Pairwise fun one later => one.start < later.start := by
  constructor
  · intro position inside outcome
    have more : Cursor.hasMore ⟨code, position⟩ := by simpa [hasMore] using inside
    obtain ⟨sameCode, onward, notPast⟩ : outcome.2.code = code ∧
        position < outcome.2.position ∧ outcome.2.position ≤ code.size :=
      Instruction.read_advances more
    refine ⟨sameCode, onward, notPast, fun failed => ?_⟩
    obtain ⟨most, callSite⟩ : outcome.2.remaining.length ≤ 1 ∧
        (outcome.2.remaining.length = 1 →
          code[position]? = some Opcode.invokedynamic.byte) :=
      Instruction.remaining_of_endOfCode more failed
    rw [length_remaining, sameCode] at most callSite
    exact ⟨by omega, fun left => callSite (by omega)⟩
  · intro position inside readings
    have sweeps := sweeps_sweep ⟨code, position⟩
    rw [Nat.max_eq_right inside] at sweeps
    refine ⟨fun made last => ⟨sweeps.unique, ?_⟩, ?_, sweeps.increasing⟩
    · rintro ⟨rfl, rfl⟩
      exact sweeps
    · have enough : position + readings.length ≤ code.size := sweeps.onward.2
      omega

/-- A call site that is cut off within its first number leaves a byte. -/
example : Reader.attempt Instruction.read ⟨#[0xba, 0x00], 0⟩ =
    (.error .endOfCode, ⟨#[0xba, 0x00], 1⟩) := rfl

end Cursor

end BytecodeMachine
