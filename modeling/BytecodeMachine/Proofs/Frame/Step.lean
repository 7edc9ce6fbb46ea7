/-
This file says what a step of a frame can do. Outside of the two monitor
instructions a step neither reads nor changes the heap. A step that meets the
monitor of another thread yields, and then the heap is as it was and the frame
differs at most in the offset that it remembers; nothing else makes it yield.
-/

import BytecodeMachine.Proofs.Frame.Monitors

namespace BytecodeMachine

/-! ### Reading bytes -/

namespace Cursor

variable {cursor next : Cursor} {short : ReadFault}

theorem peek?_of_readU8_error (failed : (Reader.attempt readU8 cursor).1 = .error short) :
    cursor.peek? 0 = none := by
  rw [attempt_readU8] at failed
  cases found : cursor.peek? 0 with
  | none => rfl
  | some first => simp [found] at failed

theorem isSome_peek?_of_readU16 {number : UInt16}
    (read : Reader.attempt readU16 cursor = (.ok number, next)) : (cursor.peek? 1).isSome := by
  rw [attempt_readU16] at read
  split at read
  · next high low _ second =>
    rw [second]
    rfl
  · cases read

theorem peek?_of_readU16_error (failed : (Reader.attempt readU16 cursor).1 = .error short) :
    cursor.peek? 1 = none := by
  rw [attempt_readU16] at failed
  cases second : cursor.peek? 1 with
  | none => rfl
  | some low =>
    have inside := (cursor.peek?_isSome_iff 1).mp (Option.isSome_of_eq_some second)
    have first := (cursor.peek?_isSome_iff 0).mpr (Nat.lt_of_succ_lt inside)
    obtain ⟨high, found⟩ := Option.isSome_iff_exists.mp first
    simp [found, second] at failed

theorem hasMore_of_peek? {byte : UInt8} (here : cursor.peek? 0 = some byte) : cursor.hasMore := by
  have inside := (cursor.peek?_isSome_iff 0).mp (Option.isSome_of_eq_some here)
  simpa [hasMore] using inside

end Cursor

/-! ### Reading an instruction -/

namespace Instruction

theorem opcode_of_readOperands {opcode : Opcode} {cursor next : Cursor} {instruction : Instruction}
    (read : Reader.attempt opcode.readOperands cursor = (.ok instruction, next)) :
    instruction.opcode = opcode := by
  cases opcode <;> simp only [Opcode.readOperands, Reader.attempt_bind, Reader.attempt_pure] at read
  case load | store | ret =>
    split at read <;> cases read
    rfl
  case iinc | invokedynamic =>
    split at read
    · split at read <;> cases read
      rfl
    · cases read
  all_goals
    cases read
    rfl

/-- The byte before a cursor that reads an instruction is the one of its op code. -/
theorem peek?_of_read {cursor next : Cursor} {instruction : Instruction}
    (read : Reader.attempt Instruction.read cursor = (.ok instruction, next)) :
    cursor.peek? 0 = some instruction.opcode.byte := by
  rw [Instruction.read, Reader.attempt_bind, Opcode.attempt_read] at read
  cases found : cursor.peek? 0 with
  | none => simp [found] at read
  | some byte =>
    cases known : Opcode.ofByte? byte with
    | none => simp [found, known] at read
    | some opcode =>
      simp only [found, known] at read
      rw [opcode_of_readOperands read, Opcode.ofByte?_eq_some_iff.mp known]

/-- An op code without operands is an instruction of one byte. -/
theorem attempt_read_monitorenter {cursor : Cursor}
    (here : cursor.peek? 0 = some Opcode.monitorenter.byte) :
    Reader.attempt Instruction.read cursor = (.ok .monitorenter, cursor.skip 1) := by
  rw [Instruction.read, Reader.attempt_bind, Opcode.attempt_read]
  simp only [here, Opcode.ofByte?_byte]
  rfl

end Instruction

namespace Frame

/-! ### A step as the reading and the execution of an instruction -/

theorem attempt_readInstruction (frame : Frame) :
    readInstruction.attempt frame =
      ((Reader.attempt Instruction.read frame.cursor).1.mapError .unreadableCode,
        { frame with
          pc := frame.cursor.position
          cursor := (Reader.attempt Instruction.read frame.cursor).2 }) := by
  rw [readInstruction, Action.attempt_bind_of_ok _ (Action.attempt_modify _ _), attempt_reading]

theorem attempt_step_of_exhausted {frame : Frame} (ended : frame.isExhausted) (heap : Heap) :
    step.attempt (frame, heap) = (.ok .endOfCode, (frame, heap)) := by
  rw [step, Action.attempt_bind_of_ok _ (Action.attempt_get _)]
  simp only [ended, if_true]
  rfl

theorem attempt_step_of_more {frame : Frame} (more : frame.isExhausted = false) (heap : Heap) :
    step.attempt (frame, heap) =
      (Action.onFirst readInstruction >>= execute).attempt (frame, heap) := by
  rw [step, Action.attempt_bind_of_ok _ (Action.attempt_get _)]
  simp only [more, Bool.false_eq_true, if_false]

theorem attempt_step_of_read {frame : Frame} {cursor : Cursor} {instruction : Instruction}
    (read : Reader.attempt Instruction.read frame.cursor = (.ok instruction, cursor))
    (heap : Heap) :
    step.attempt (frame, heap) = (execute instruction).attempt
      ({ frame with pc := frame.cursor.position, cursor }, heap) := by
  have more : frame.isExhausted = false := by
    rw [isExhausted, Cursor.hasMore_of_peek? (Instruction.peek?_of_read read)]
    rfl
  have first : (Action.onFirst readInstruction).attempt (frame, heap) =
      (.ok instruction, ({ frame with pc := frame.cursor.position, cursor }, heap)) := by
    rw [Action.attempt_onFirst, attempt_readInstruction, read]
    rfl
  rw [attempt_step_of_more more, Action.attempt_bind_of_ok _ first]

/-- A step does not ask which offset the frame remembers. -/
theorem attempt_step_rewound {frame : Frame} (more : frame.isExhausted = false) (heap : Heap) :
    step.attempt (frame.rewound, heap) = step.attempt (frame, heap) := by
  have still : frame.rewound.isExhausted = false := more
  rw [attempt_step_of_more more, attempt_step_of_more still, Action.attempt_bind,
    Action.attempt_bind, Action.attempt_onFirst, Action.attempt_onFirst,
    attempt_readInstruction, attempt_readInstruction]
  rfl

theorem WellFormed.rewound {thread : ThreadId} {frame : Frame}
    (wellFormed : frame.WellFormed thread) : frame.rewound.WellFormed thread :=
  ⟨wellFormed.thread_eq, wellFormed.stack_wellFormed, wellFormed.cursor_le⟩

/-- Before the end of the code a step succeeds only with an instruction that can be read. -/
theorem exists_read_of_step {frame : Frame} {heap : Heap} {signal : Signal}
    {later : Frame × Heap} (success : step.attempt (frame, heap) = (.ok signal, later))
    (more : frame.isExhausted = false) :
    ∃ instruction cursor,
      Reader.attempt Instruction.read frame.cursor = (.ok instruction, cursor) := by
  rw [attempt_step_of_more more] at success
  obtain ⟨instruction, reached, first, -⟩ := Action.attempt_bind_eq_ok success
  rw [Action.attempt_onFirst, attempt_readInstruction] at first
  rcases read : Reader.attempt Instruction.read frame.cursor with ⟨_ | value, cursor⟩ <;>
    rw [read] at first
  · cases congrArg Prod.fst first
  · exact ⟨value, cursor, rfl⟩

/-- Only entering a monitor can end in anything but going on. -/
theorem signal_of_execute {instruction : Instruction} {state later : Frame × Heap}
    {signal : Signal} (success : (execute instruction).attempt state = (.ok signal, later)) :
    signal = .proceed ∨ signal = .yield ∧ instruction = .monitorenter := by
  obtain ⟨frame, heap⟩ := state
  cases concerned : aloneAction? instruction with
  | some action =>
    rw [attempt_execute_of_aloneAction? concerned] at success
    obtain ⟨-, -, rfl⟩ := Except.exists_of_map_eq_ok (congrArg Prod.fst success)
    exact Or.inl rfl
  | none =>
    cases instruction <;> simp only [aloneAction?, reduceCtorEq] at concerned
    case monitorenter =>
      rw [attempt_execute_monitorenter] at success
      obtain ⟨_, _, -, ⟨_, _, rfl, -⟩ | ⟨_, rfl, -⟩⟩ := enterMonitor_eq_ok success
      · exact Or.inl rfl
      · exact Or.inr ⟨rfl, rfl⟩
    case monitorexit =>
      rw [attempt_execute_monitorexit] at success
      obtain ⟨_, _, _, -, rfl, -⟩ := exitMonitor_eq_ok success
      exact Or.inl rfl

/-- Before the end of the code no step reports that the end was reached. -/
theorem isExhausted_of_endOfCode {frame : Frame} {heap : Heap} {later : Frame × Heap}
    (success : step.attempt (frame, heap) = (.ok .endOfCode, later)) : frame.isExhausted := by
  cases more : frame.isExhausted with
  | true => rfl
  | false =>
    obtain ⟨instruction, cursor, read⟩ := exists_read_of_step success more
    rw [attempt_step_of_read read] at success
    rcases signal_of_execute success with signal | ⟨signal, -⟩ <;> cases signal

/-! ### Yielding -/

/-- A step that meets the monitor of another thread yields. The heap stays as it is and so does
the frame, up to the offset that it remembers. -/
theorem attempt_step_of_blocked {thread : ThreadId} {frame : Frame} {heap : Heap}
    (wellFormed : frame.WellFormed thread) (blocked : frame.Blocked heap) :
    step.attempt (frame, heap) = (.ok .yield, (frame.rewound, heap)) := by
  obtain ⟨reference, owner, ⟨here, top⟩, locked, other⟩ := blocked
  have inside : frame.cursor.position < frame.cursor.code.size := by
    simpa using (frame.cursor.peek?_isSome_iff 0).mp (Option.isSome_of_eq_some here)
  have advanced : ({ frame with
      pc := frame.cursor.position, cursor := frame.cursor.skip 1 } : Frame).WellFormed thread :=
    ⟨wellFormed.thread_eq, wellFormed.stack_wellFormed, inside⟩
  rw [attempt_step_of_read (Instruction.attempt_read_monitorenter here),
    attempt_execute_monitorenter,
    attempt_enterMonitor_of_lockedBy advanced top inside locked other]
  rfl

/-- Nothing but the monitor of another thread makes a step yield. -/
theorem blocked_of_yield {frame : Frame} {heap : Heap} {later : Frame × Heap}
    (yields : step.attempt (frame, heap) = (.ok .yield, later)) : frame.Blocked heap := by
  cases more : frame.isExhausted with
  | true => cases (attempt_step_of_exhausted more heap).symm.trans yields
  | false =>
    obtain ⟨instruction, cursor, read⟩ := exists_read_of_step yields more
    rw [attempt_step_of_read read] at yields
    rcases signal_of_execute yields with signal | ⟨-, rfl⟩
    · cases signal
    · rw [attempt_execute_monitorenter] at yields
      obtain ⟨reference, popped, taken, ⟨_, _, proceeds, -⟩ | ⟨owner, -, locked, other⟩⟩ :=
        enterMonitor_eq_ok yields
      · cases proceeds
      · have top := head?_of_pop taken
        exact ⟨reference, owner, ⟨Instruction.peek?_of_read read, top⟩, locked, other⟩

/-! ### What a step does to the heap -/

section Keeping

variable {thread : ThreadId} {allowance : Allowance} {property : Frame → Prop}
  {other : Heap → Prop}

theorem Invariant.gives_popObject_onFirst (invariant : Invariant thread allowance property) :
    (Action.onFirst popObject : Action (Frame × Heap) ObjectRef).Gives
      (fun state => property state.1 ∧ other state.2)
      fun reference => allowance.onStack (.reference reference) :=
  fun _ _ holds answer => invariant.gives_popObject holds.1 answer

theorem Invariant.keeps_enterMonitor (invariant : Invariant thread allowance property)
    (entering : ∀ reference, allowance.onStack (.reference reference) →
      (Heap.enter reference thread).Keeps other) :
    enterMonitor.Keeps fun state => property state.1 ∧ other state.2 := by
  refine Action.Keeps.bind_of_gives (Action.Keeps.onFirst invariant.keeps_popObject)
    invariant.gives_popObject_onFirst fun reference fine => ?_
  refine Action.Keeps.get_bind fun state holds => ?_
  have entered : (Heap.enter reference state.1.thread).Keeps other :=
    invariant.thread_eq holds.1 ▸ entering reference fine
  refine Action.Keeps.bind (Action.Keeps.onSecond entered) (fun entry => ?_) state holds
  cases entry with
  | acquired count => exact Action.Keeps.pure _
  | contended owner =>
    refine Action.Keeps.bind (Action.Keeps.onFirst (invariant.keeps_push fine)) fun _ => ?_
    exact Action.Keeps.bind (Action.Keeps.onFirst (invariant.keeps_goto _)) fun _ =>
      Action.Keeps.pure _

theorem Invariant.keeps_exitMonitor (invariant : Invariant thread allowance property)
    (leaving : ∀ reference, allowance.onStack (.reference reference) →
      (Heap.exit reference thread).Keeps other) :
    exitMonitor.Keeps fun state => property state.1 ∧ other state.2 := by
  refine Action.Keeps.bind_of_gives (Action.Keeps.onFirst invariant.keeps_popObject)
    invariant.gives_popObject_onFirst fun reference fine => ?_
  refine Action.Keeps.get_bind fun state holds => ?_
  have left : (Heap.exit reference state.1.thread).Keeps other :=
    invariant.thread_eq holds.1 ▸ leaving reference fine
  exact Action.Keeps.bind (Action.Keeps.onSecond left) (fun _ => Action.Keeps.pure _) state holds

/-- A step keeps an invariant and does nothing to the heap but to enter and to leave monitors in
the name of its thread, and only through references that the frame may have. -/
theorem Invariant.keeps_step (invariant : Invariant thread allowance property)
    (entering : ∀ reference, allowance.onStack (.reference reference) →
      (Heap.enter reference thread).Keeps other)
    (leaving : ∀ reference, allowance.onStack (.reference reference) →
      (Heap.exit reference thread).Keeps other) :
    step.Keeps fun state => property state.1 ∧ other state.2 := by
  refine Action.Keeps.get_bind fun state holds => ?_
  cases ended : state.1.isExhausted <;>
    simp only [ended, if_true, Bool.false_eq_true, if_false]
  · refine Action.Keeps.bind (Action.Keeps.onFirst invariant.keeps_readInstruction)
      (fun instruction => ?_) state holds
    intro ⟨frame, heap⟩ ready
    cases concerned : aloneAction? instruction with
    | some action =>
      rw [attempt_execute_of_aloneAction? concerned]
      exact ⟨invariant.keeps_of_aloneAction? concerned frame ready.1, ready.2⟩
    | none =>
      cases instruction <;> simp only [aloneAction?, reduceCtorEq] at concerned
      case monitorenter =>
        rw [attempt_execute_monitorenter]
        exact invariant.keeps_enterMonitor entering _ ready
      case monitorexit =>
        rw [attempt_execute_monitorexit]
        exact invariant.keeps_exitMonitor leaving _ ready
  · exact holds

theorem Invariant.keeps_step_frame (invariant : Invariant thread allowance property) :
    step.Keeps fun state => property state.1 := by
  intro state holds
  have kept := @Invariant.keeps_step thread allowance property (fun _ => True) invariant
    (fun _ _ _ _ => trivial) fun _ _ _ _ => trivial
  exact (kept state ⟨holds, trivial⟩).1

/-- A step keeps the frame in order and does nothing to the heap but to enter and to leave
monitors in the name of its thread. -/
theorem keeps_step (entering : ∀ reference, (Heap.enter reference thread).Keeps other)
    (leaving : ∀ reference, (Heap.exit reference thread).Keeps other) :
    step.Keeps fun state => state.1.WellFormed thread ∧ other state.2 :=
  (invariant_wellFormed thread).keeps_step (fun reference _ => entering reference)
    fun reference _ => leaving reference

theorem keeps_step_wellFormed : step.Keeps fun state => state.1.WellFormed thread :=
  (invariant_wellFormed thread).keeps_step_frame

end Keeping

/-- A step of a thread on one heap is the same step on every heap that is the same for the
thread, unless another thread stands in its way there. -/
theorem step_sameFor {frame next : Frame} {left right later : Heap}
    (same : Heap.SameFor frame.thread left right)
    (proceeds : step.attempt (frame, left) = (.ok .proceed, (next, later)))
    (free : ¬ frame.Blocked right) :
    ∃ reached, step.attempt (frame, right) = (.ok .proceed, (next, reached)) ∧
      Heap.SameFor frame.thread later reached := by
  cases more : frame.isExhausted with
  | true => cases (attempt_step_of_exhausted more left).symm.trans proceeds
  | false =>
    obtain ⟨instruction, cursor, read⟩ := exists_read_of_step proceeds more
    rw [attempt_step_of_read read] at proceeds
    rw [attempt_step_of_read read]
    cases concerned : aloneAction? instruction with
    | some action =>
      rw [attempt_execute_of_aloneAction? concerned] at proceeds
      rw [attempt_execute_of_aloneAction? concerned]
      simp only [Prod.mk.injEq] at proceeds
      obtain ⟨answer, rfl, rfl⟩ := proceeds
      exact ⟨right, by rw [answer], same⟩
    | none =>
      cases instruction <;> simp only [aloneAction?, reduceCtorEq] at concerned
      case monitorenter =>
        rw [attempt_execute_monitorenter] at proceeds
        rw [attempt_execute_monitorenter]
        refine enterMonitor_sameFor same proceeds fun reference owner top other locked => free ?_
        exact ⟨reference, owner, ⟨Instruction.peek?_of_read read, top⟩, locked, other⟩
      case monitorexit =>
        rw [attempt_execute_monitorexit] at proceeds
        rw [attempt_execute_monitorexit]
        exact exitMonitor_sameFor same proceeds

end Frame

end BytecodeMachine
