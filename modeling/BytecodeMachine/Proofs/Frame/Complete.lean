/-
This file looks at whole instructions. To the reader a wide prefix is an
instruction of its own, and the op code that it modifies is read when it is
executed; here the two belong together, and what lies at a cursor is a single
instruction with all its bytes. Main statement: an instruction that uses a local
variable, in whichever of its encodings, does to the frame behind its bytes what
it says, and the heap has no part in that.
-/

import BytecodeMachine.Proofs.Frame.Wide
import BytecodeMachine.Proofs.Frame.Step

namespace BytecodeMachine

/-! ### Uses of a local variable -/

/-- What an instruction does with a local variable: the operation, the index of the variable, and
the constant of an increment. -/
structure LocalUse where
  form : Widenable
  index : Nat
  constant : Int32

/-- The action of the frame that the use stands for. -/
def LocalUse.perform (usage : LocalUse) : Action Frame Unit :=
  usage.form.perform usage.index usage.constant

/-- The use that an instruction makes of a local variable. A short form carries the index in its
op code; a wide prefix makes no use of its own. -/
def Instruction.localUse? : Instruction → Option LocalUse
  | load kind index => some ⟨.load kind, index.toNat, 0⟩
  | loadShort kind index => some ⟨.load kind, index.val, 0⟩
  | store kind index => some ⟨.store kind, index.toNat, 0⟩
  | storeShort kind index => some ⟨.store kind, index.val, 0⟩
  | iinc index constant => some ⟨.iinc, index.toNat, constant.toInt32⟩
  | ret index => some ⟨.ret, index.toNat, 0⟩
  | nop | shuffle _ | invokedynamic _ | monitorenter | monitorexit | wide | reserved _ => none

theorem Frame.aloneAction?_of_localUse? {instruction : Instruction} {usage : LocalUse}
    (used : instruction.localUse? = some usage) :
    aloneAction? instruction = some usage.perform := by
  cases instruction <;> cases used <;> rfl

/-! ### Complete instructions -/

/-- An instruction with all its bytes: one that stands for itself, or a wide prefix together with
the op code and the operands behind it. Only an increment has a constant. -/
inductive CompleteInstruction
  | plain (instruction : Instruction) (unprefixed : instruction ≠ .wide)
  | widened (form : Widenable) (index : UInt16) (constant : Int16)

namespace CompleteInstruction

/-- The bytes are an encoding of the instruction. -/
def EncodedAs : CompleteInstruction → List UInt8 → Prop
  | plain instruction _, bytes => instruction.EncodedAs bytes
  | widened form index constant, bytes =>
    bytes = Opcode.wide.byte :: form.wideBytes index constant

/-- The number of bytes of the instruction. -/
def length : CompleteInstruction → Nat
  | plain (.load ..) _ | plain (.store ..) _ | plain (.ret _) _ => 2
  | plain (.iinc ..) _ => 3
  | plain (.invokedynamic _) _ => 5
  | plain .nop _ | plain (.loadShort ..) _ | plain (.storeShort ..) _ | plain (.shuffle _) _
  | plain .monitorenter _ | plain .monitorexit _ | plain .wide _ | plain (.reserved _) _ => 1
  | widened .iinc .. => 6
  | widened (.load _) .. | widened (.store _) .. | widened .ret .. => 4

theorem EncodedAs.length_eq {complete : CompleteInstruction} {bytes : List UInt8}
    (encoded : complete.EncodedAs bytes) : bytes.length = complete.length := by
  cases complete with
  | plain instruction unprefixed =>
    obtain ⟨operands, rfl, written⟩ := encoded
    cases instruction
    case invokedynamic callSite =>
      obtain ⟨third, fourth, rfl⟩ := written
      rfl
    all_goals
      cases written
      rfl
  | widened form index constant =>
    cases encoded
    cases form <;> rfl

theorem length_pos (complete : CompleteInstruction) : 0 < complete.length := by
  unfold length
  split <;> decide

/-- The use that the instruction makes of a local variable. -/
def localUse? : CompleteInstruction → Option LocalUse
  | plain instruction _ => instruction.localUse?
  | widened form index constant => some ⟨form, index.toNat, constant.toInt32⟩

/-- The local variable by whose address the instruction returns, if it is a return. -/
def returnIndex? (complete : CompleteInstruction) : Option Nat :=
  match complete.localUse? with
  | some ⟨.ret, index, _⟩ => some index
  | some ⟨.load _, _, _⟩ | some ⟨.store _, _, _⟩ | some ⟨.iinc, _, _⟩ | none => none

variable {complete : CompleteInstruction} {usage : LocalUse}

theorem returnIndex?_eq_some_iff {index : Nat} :
    complete.returnIndex? = some index ↔
      ∃ constant, complete.localUse? = some ⟨.ret, index, constant⟩ := by
  unfold returnIndex?
  rcases complete.localUse? with _ | ⟨_ | _ | _ | _, _, _⟩ <;> simp

theorem returnIndex?_of_form_ne (used : complete.localUse? = some usage)
    (other : usage.form ≠ .ret) : complete.returnIndex? = none := by
  refine Option.eq_none_iff_forall_ne_some.mpr fun index returns => ?_
  obtain ⟨constant, same⟩ := returnIndex?_eq_some_iff.mp returns
  cases used.symm.trans same
  exact other rfl

end CompleteInstruction

/-- The bytes of the instruction lie at the cursor. -/
def Cursor.Holds (cursor : Cursor) (complete : CompleteInstruction) : Prop :=
  ∃ bytes, complete.EncodedAs bytes ∧ bytes <+: cursor.remaining

/-- Code that holds a return, behind a wide prefix or not, has its byte. -/
theorem Cursor.Holds.ret_mem_code {cursor : Cursor} {complete : CompleteInstruction} {index : Nat}
    (held : cursor.Holds complete) (returns : complete.returnIndex? = some index) :
    Opcode.ret.byte ∈ cursor.code := by
  obtain ⟨constant, used⟩ := CompleteInstruction.returnIndex?_eq_some_iff.mp returns
  obtain ⟨bytes, encoded, ahead⟩ := held
  have present : Opcode.ret.byte ∈ bytes := by
    cases complete with
    | plain instruction unprefixed =>
      cases instruction <;> cases used
      obtain ⟨operands, rfl, -⟩ := encoded
      exact List.mem_cons_self
    | widened form index constant =>
      cases used
      cases encoded
      exact List.mem_cons_of_mem _ List.mem_cons_self
  exact Array.mem_toList_iff.mp (List.mem_of_mem_drop (ahead.subset present))

namespace Frame

variable {frame : Frame} {complete : CompleteInstruction} {heap : Heap}

/-! ### Executing a complete instruction -/

/-- The frame in which the next instruction has been read, with a number of bytes: it remembers
where they begin and goes on behind them. -/
def behind (frame : Frame) (count : Nat) : Frame :=
  { frame with pc := frame.cursor.position, cursor := frame.cursor.skip count }

/-- A step at an instruction without a wide prefix executes it in the frame behind it. -/
theorem attempt_step_of_plain {instruction : Instruction} {unprefixed : instruction ≠ .wide}
    (held : frame.cursor.Holds (.plain instruction unprefixed)) (heap : Heap) :
    step.attempt (frame, heap) = (execute instruction).attempt
      (frame.behind (CompleteInstruction.plain instruction unprefixed).length, heap) := by
  obtain ⟨bytes, encoded, ahead⟩ := held
  rw [attempt_step_of_read (Instruction.attempt_read_of_encodedAs encoded ahead),
    encoded.length_eq]
  rfl

/-- A step at an instruction that uses a local variable does so in the frame behind it. -/
theorem attempt_step_of_localUse? {usage : LocalUse} (held : frame.cursor.Holds complete)
    (used : complete.localUse? = some usage) (heap : Heap) :
    step.attempt (frame, heap) =
      ((usage.perform.attempt (frame.behind complete.length)).1.map fun _ => .proceed,
        ((usage.perform.attempt (frame.behind complete.length)).2, heap)) := by
  cases complete with
  | plain instruction unprefixed =>
    rw [attempt_step_of_plain held]
    exact attempt_execute_of_aloneAction? (aloneAction?_of_localUse? used) _ heap
  | widened form index constant =>
    cases used
    obtain ⟨_, rfl, ahead⟩ := held
    obtain ⟨first, operands⟩ := Cursor.cons_prefix_iff.mp ahead
    have encoded : Instruction.wide.EncodedAs [Opcode.wide.byte] := ⟨_, rfl, rfl⟩
    have executed := @attempt_executeWide_of_bytes (frame.behind 1) form index constant operands
    have concerned : aloneAction? .wide = some executeWide := rfl
    rw [attempt_step_of_read (Instruction.attempt_read_of_encodedAs encoded
      (Cursor.peek?_eq_some_iff.mp first))]
    refine (attempt_execute_of_aloneAction? concerned (frame.behind 1) heap).trans ?_
    -- the prefix was skipped by the reader, and the rest while it was executed
    have width : 1 + (1 + form.wideOperandCount) =
        (CompleteInstruction.widened form index constant).length := by
      cases form <;> rfl
    rw [executed, behind, Cursor.skip_skip, width]
    rfl

/-- An instruction that uses a local variable lets the next one follow unless it fails. -/
theorem eq_proceed_of_localUse? {usage : LocalUse} {signal : Signal} {later : Frame × Heap}
    (held : frame.cursor.Holds complete) (used : complete.localUse? = some usage)
    (success : step.attempt (frame, heap) = (.ok signal, later)) : signal = .proceed := by
  rw [attempt_step_of_localUse? held used, Prod.mk.injEq] at success
  obtain ⟨-, -, rfl⟩ := Except.exists_of_map_eq_ok success.1
  rfl

/-- A step that lets the next instruction follow finds a complete instruction at its cursor. -/
theorem exists_holds_of_step {later : Frame × Heap}
    (proceeds : step.attempt (frame, heap) = (.ok .proceed, later)) :
    ∃ complete, frame.cursor.Holds complete := by
  cases more : frame.isExhausted with
  | true => cases (attempt_step_of_exhausted more heap).symm.trans proceeds
  | false =>
    obtain ⟨instruction, cursor, read⟩ := exists_read_of_step proceeds more
    obtain ⟨encoding, ahead, encoded, rfl⟩ := Instruction.encodedAs_of_read read
    by_cases prefixed : instruction = .wide
    · subst prefixed
      have concerned : aloneAction? .wide = some executeWide := rfl
      obtain ⟨_, rfl, rfl⟩ := encoded
      rw [attempt_step_of_read read, attempt_execute_of_aloneAction? concerned,
        Prod.mk.injEq] at proceeds
      obtain ⟨_, done, -⟩ := Except.exists_of_map_eq_ok proceeds.1
      obtain ⟨form, index, constant, operands, -⟩ := exists_of_executeWide (Prod.ext done rfl)
      refine ⟨.widened form index constant, _, rfl, Cursor.cons_prefix_iff.mpr ⟨?_, operands⟩⟩
      exact Cursor.peek?_eq_some_iff.mpr ahead
    · exact ⟨.plain instruction prefixed, encoding, encoded, ahead⟩

end Frame

end BytecodeMachine
