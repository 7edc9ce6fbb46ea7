/-
This file follows the cursor through a step. A step that lets the next
instruction follow leaves the cursor behind all bytes of the instruction that
was executed, unless that is a return, alone or behind a wide prefix, which goes
on at an address saved in a local variable. Every other step moves strictly
forward.
-/

import BytecodeMachine.Proofs.Frame.Complete

namespace BytecodeMachine.Frame

/-! ### Actions that leave the cursor alone -/

/-- The frame remembers an offset and has its cursor at a certain place. -/
def StandsAt (pc : Nat) (cursor : Cursor) (frame : Frame) : Prop :=
  frame.pc = pc ∧ frame.cursor = cursor

variable {pc : Nat} {cursor : Cursor}

theorem keeps_standsAt_onStack {α : Type} (action : Action OperandStack α) :
    (onStack action).Keeps (StandsAt pc cursor) :=
  fun _ stands => stands

theorem keeps_standsAt_load (kind : LocalKind) (index : Nat) :
    (load kind index).Keeps (StandsAt pc cursor) := by
  refine Action.Keeps.bind (Action.Keeps.inspect _) fun value => ?_
  split
  · exact keeps_standsAt_onStack _
  · exact Action.Keeps.fail _

theorem keeps_standsAt_store (kind : LocalKind) (index : Nat) :
    (store kind index).Keeps (StandsAt pc cursor) := by
  refine (keeps_standsAt_onStack _).bind fun value => ?_
  split
  · exact fun _ stands => stands
  · exact Action.Keeps.fail _

theorem keeps_standsAt_increment (index : Nat) (constant : Int32) :
    (increment index constant).Keeps (StandsAt pc cursor) := by
  refine Action.Keeps.bind (Action.Keeps.inspect _) fun value => ?_
  cases value
  case int number => exact fun _ stands => stands
  all_goals exact Action.Keeps.fail _

/-- No use of a local variable but a return moves the cursor. -/
theorem keeps_standsAt_perform {usage : LocalUse} (other : usage.form ≠ .ret) :
    usage.perform.Keeps (StandsAt pc cursor) := by
  obtain ⟨form, index, constant⟩ := usage
  cases form with
  | load kind => exact keeps_standsAt_load kind index
  | store kind => exact keeps_standsAt_store kind index
  | iinc => exact keeps_standsAt_increment index constant
  | ret => exact absurd rfl other

/-! ### Returns -/

/-- A return succeeds only with an address in the local variable that lies inside the code. -/
theorem returnTo_eq_ok {frame next : Frame} {index : Nat}
    (success : (returnTo index).attempt frame = (.ok (), next)) :
    ∃ offset, frame.locals.get index = .ok (.returnAddress offset) ∧
      offset.toNat < frame.cursor.code.size ∧
      next = { frame with
        pc := offset.toNat, cursor := { frame.cursor with position := offset.toNat } } := by
  obtain ⟨value, reached, found, rest⟩ := Action.attempt_bind_eq_ok success
  rw [getLocal, Action.attempt_inspect, Prod.mk.injEq] at found
  obtain ⟨found, rfl⟩ := found
  cases value
  case returnAddress offset =>
    rw [attempt_goto] at rest
    split at rest
    · next inside =>
      cases rest
      exact ⟨offset, found, inside, rfl⟩
    · cases rest
  all_goals cases rest

/-- An address is saved in a local variable of the frame, and its code has a byte of the return
instruction; then the cursor may go on at that address. -/
def Returns (frame next : Frame) : Prop :=
  Opcode.ret.byte ∈ frame.cursor.code ∧
    ∃ index offset, frame.locals.get index = .ok (.returnAddress offset) ∧
      next.StandsAt offset.toNat { frame.cursor with position := offset.toNat }

/-! ### The cursor after a step -/

variable {frame next : Frame} {heap later : Heap} {complete : CompleteInstruction}

/-- Where a step leaves the frame that executes an instruction and lets the next one follow:
behind the instruction or, if that is a return, at the address in its local variable. -/
inductive GoesOn (complete : CompleteInstruction) (frame next : Frame) : Prop
  | onward (other : complete.returnIndex? = none)
      (stands : next.StandsAt frame.cursor.position (frame.cursor.skip complete.length))
  | returned {index : Nat} {offset : UInt32} (returns : complete.returnIndex? = some index)
      (found : frame.locals.get index = .ok (.returnAddress offset))
      (inside : offset.toNat < frame.cursor.code.size)
      (stands : next.StandsAt offset.toNat { frame.cursor with position := offset.toNat })

/-- An instruction that uses no local variable and lets the next one follow does nothing to the
frame, or takes its top value, or shuffles its operand stack. -/
theorem frame_of_execute {instruction : Instruction} (unused : instruction.localUse? = none)
    (unprefixed : instruction ≠ .wide)
    (proceeds : (execute instruction).attempt (frame, heap) = (.ok .proceed, (next, later))) :
    next = frame ∨ next = (pop.attempt frame).2 ∨
      ∃ operation, next = ((onStack (OperandStack.shuffle operation)).attempt frame).2 := by
  cases instruction <;> simp only [Instruction.localUse?, reduceCtorEq] at unused
  case nop =>
    cases proceeds
    exact Or.inl rfl
  case shuffle operation =>
    have concerned : aloneAction? (.shuffle operation) =
        some (onStack (OperandStack.shuffle operation)) := rfl
    rw [attempt_execute_of_aloneAction? concerned, Prod.mk.injEq, Prod.mk.injEq] at proceeds
    obtain ⟨-, rfl, -⟩ := proceeds
    exact Or.inr (Or.inr ⟨operation, rfl⟩)
  case monitorenter =>
    rw [attempt_execute_monitorenter] at proceeds
    obtain ⟨reference, popped, taken, ⟨_, _, -, outcome, -⟩ | ⟨_, yields, -⟩⟩ :=
      enterMonitor_eq_ok proceeds
    · cases outcome
      exact Or.inr (Or.inl (by rw [taken]))
    · cases yields
  case monitorexit =>
    rw [attempt_execute_monitorexit] at proceeds
    obtain ⟨reference, popped, _, taken, -, outcome, -⟩ := exitMonitor_eq_ok proceeds
    cases outcome
    exact Or.inr (Or.inl (by rw [taken]))
  case wide => exact absurd rfl unprefixed
  case invokedynamic | reserved => cases proceeds

/-- An instruction that uses no local variable leaves the cursor alone once it has been read. -/
theorem standsAt_of_execute {instruction : Instruction} (unused : instruction.localUse? = none)
    (unprefixed : instruction ≠ .wide)
    (proceeds : (execute instruction).attempt (frame, heap) = (.ok .proceed, (next, later))) :
    next.StandsAt frame.pc frame.cursor := by
  obtain rfl | rfl | ⟨operation, rfl⟩ := frame_of_execute unused unprefixed proceeds
  · exact ⟨rfl, rfl⟩
  · exact keeps_standsAt_onStack _ frame ⟨rfl, rfl⟩
  · exact keeps_standsAt_onStack _ frame ⟨rfl, rfl⟩

/-- A step that lets the next instruction follow has executed the one at the cursor, and has moved
the cursor behind it or returned. -/
theorem goesOn_of_step (held : frame.cursor.Holds complete)
    (proceeds : step.attempt (frame, heap) = (.ok .proceed, (next, later))) :
    GoesOn complete frame next := by
  cases used : complete.localUse? with
  | some usage =>
    rw [attempt_step_of_localUse? held used, Prod.mk.injEq, Prod.mk.injEq] at proceeds
    obtain ⟨answer, reached, -⟩ := proceeds
    by_cases returns : usage.form = .ret
    · obtain ⟨_, index, constant⟩ := usage
      cases returns
      obtain ⟨_, done, -⟩ := Except.exists_of_map_eq_ok answer
      obtain ⟨offset, found, inside, rfl⟩ := returnTo_eq_ok (Prod.ext done reached)
      have index_eq := CompleteInstruction.returnIndex?_eq_some_iff.mpr ⟨constant, used⟩
      exact .returned index_eq found inside ⟨rfl, rfl⟩
    · exact .onward (CompleteInstruction.returnIndex?_of_form_ne used returns)
        (reached ▸ keeps_standsAt_perform returns _ ⟨rfl, rfl⟩)
  | none =>
    cases complete with
    | plain instruction unprefixed =>
      rw [attempt_step_of_plain held] at proceeds
      exact .onward (by rw [CompleteInstruction.returnIndex?, used])
        (standsAt_of_execute used unprefixed proceeds)
    | widened => cases used

/-- A step that lets the next instruction follow moves the cursor strictly forward, or
returns. -/
theorem advances_or_returns
    (proceeds : step.attempt (frame, heap) = (.ok .proceed, (next, later))) :
    (∃ count, 0 < count ∧ next.StandsAt frame.cursor.position (frame.cursor.skip count)) ∨
      frame.Returns next := by
  obtain ⟨complete, held⟩ := exists_holds_of_step proceeds
  cases goesOn_of_step held proceeds with
  | onward other stands => exact Or.inl ⟨complete.length, complete.length_pos, stands⟩
  | returned returns found inside stands =>
    exact Or.inr ⟨held.ret_mem_code returns, _, _, found, stands⟩

end BytecodeMachine.Frame
