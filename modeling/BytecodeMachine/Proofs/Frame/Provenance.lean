/-
This file follows the values of a frame to where they come from. A step only
moves values about, unless it is an increment that goes on; that puts one sum
into the frame. Main statement: after any steps of a new frame, failing and
waiting ones included, every value in it is an argument, except that an integer
may be the sum of an argument and some of the constants that were added on the
way.
-/

import BytecodeMachine.Proofs.Frame.Advance
import BytecodeMachine.Proofs.Frame.Confinement
import BytecodeMachine.Proofs.Frame.Failure
import BytecodeMachine.Proofs.Frame.Increment
import BytecodeMachine.Proofs.Frame.Locality

namespace BytecodeMachine.Frame

/-! ### The values in a frame -/

/-- The value lies on the operand stack or starts at a local index. -/
def Contains (frame : Frame) (value : Value) : Prop :=
  value ∈ frame.stack.values ∨ ∃ index, frame.locals.slot? index = some (.entry value)

/-- All values in the frame are allowed. -/
structure Only (allowed : Value → Prop) (frame : Frame) : Prop where
  stack : frame.stack.Only allowed
  locals : frame.locals.Only fun _ => allowed

variable {allowed wider : Value → Prop} {frame next : Frame} {heap later : Heap}

theorem Only.of_contains (only : frame.Only allowed) {value : Value}
    (contains : frame.Contains value) : allowed value := by
  obtain member | ⟨index, found⟩ := contains
  · exact only.stack value member
  · exact only.locals index value found

theorem Only.mono (only : frame.Only allowed) (also : ∀ value, allowed value → wider value) :
    frame.Only wider :=
  ⟨fun value member => also value (only.stack value member),
    fun index value found => also value (only.locals index value found)⟩

/-- What was read of the code has no part in the values. -/
theorem ReadOn.only (moved : ReadOn frame next) (only : frame.Only allowed) : next.Only allowed :=
  ⟨moved.stack_eq ▸ only.stack, moved.locals_eq ▸ only.locals⟩

/-! ### Actions that move values about -/

theorem keeps_only_onStack {α : Type} {action : Action OperandStack α}
    (kept : action.Keeps (OperandStack.Only allowed)) : (onStack action).Keeps (Only allowed) :=
  fun frame only => ⟨kept frame.stack only.stack, only.locals⟩

theorem keeps_only_pop : pop.Keeps (Only allowed) :=
  keeps_only_onStack OperandStack.keeps_only_pop

theorem keeps_only_setLocal {index : Nat} {value : Value} (fine : allowed value) :
    (setLocal index value).Keeps (Only allowed) :=
  fun frame only => ⟨only.stack, Locals.keeps_only_set fine frame.locals only.locals⟩

theorem keeps_only_goto (target : Nat) : (goto target).Keeps (Only allowed) := by
  intro frame only
  rw [attempt_goto]
  split
  · exact ⟨only.stack, only.locals⟩
  · exact only

theorem gives_getLocal (index : Nat) : (getLocal index).Gives (Only allowed) allowed :=
  fun _ _ only answer => only.locals _ _ (Locals.get_eq_ok_iff.mp answer)

theorem keeps_only_load (kind : LocalKind) (index : Nat) :
    (load kind index).Keeps (Only allowed) := by
  refine Action.Keeps.bind_of_gives (Action.Keeps.inspect _) (gives_getLocal index)
    fun value fine => ?_
  split
  · exact keeps_only_onStack (OperandStack.keeps_only_push fine)
  · exact Action.Keeps.fail _

theorem keeps_only_store (kind : LocalKind) (index : Nat) :
    (store kind index).Keeps (Only allowed) := by
  have gives_pop : pop.Gives (Only allowed) allowed :=
    fun _ _ only answer => OperandStack.gives_pop only.stack answer
  refine Action.Keeps.bind_of_gives keeps_only_pop gives_pop fun value fine => ?_
  split
  · exact keeps_only_setLocal fine
  · exact Action.Keeps.fail _

theorem keeps_only_returnTo (index : Nat) : (returnTo index).Keeps (Only allowed) := by
  refine Action.Keeps.bind (Action.Keeps.inspect _) fun value => ?_
  cases value
  case returnAddress offset => exact keeps_only_goto _
  all_goals exact Action.Keeps.fail _

/-- Afterwards the value that was written is the only new one. -/
theorem only_of_setLocal (only : frame.Only allowed) {index : Nat} {value : Value}
    (success : (setLocal index value).attempt frame = (.ok (), next)) :
    next.Only fun other => allowed other ∨ other = value := by
  have kept : ((setLocal index value).attempt frame).2.Only fun other =>
      allowed other ∨ other = value :=
    keeps_only_setLocal (Or.inr rfl) frame (only.mono fun _ => Or.inl)
  rwa [success] at kept

/-- An increment puts one sum into the frame. -/
theorem only_of_increment (only : frame.Only allowed) {index : Nat} {constant : Int32}
    (success : (increment index constant).attempt frame = (.ok (), next)) :
    ∃ number, allowed (.int number) ∧
      next.Only fun value => allowed value ∨ value = .int (number + constant) := by
  obtain ⟨value, reached, found, written⟩ := Action.attempt_bind_eq_ok success
  rw [getLocal, Action.attempt_inspect, Prod.mk.injEq] at found
  obtain ⟨found, rfl⟩ := found
  cases value
  case int number =>
    exact ⟨number, only.locals index _ (Locals.get_eq_ok_iff.mp found),
      only_of_setLocal only written⟩
  all_goals cases written

/-! ### Steps -/

/-- An instruction that uses no local variable only moves values about. -/
theorem only_of_execute {instruction : Instruction} (unused : instruction.localUse? = none)
    (unprefixed : instruction ≠ .wide) (only : frame.Only allowed)
    (proceeds : (execute instruction).attempt (frame, heap) = (.ok .proceed, (next, later))) :
    next.Only allowed := by
  obtain rfl | rfl | ⟨operation, rfl⟩ := frame_of_execute unused unprefixed proceeds
  · exact only
  · exact keeps_only_pop frame only
  · exact keeps_only_onStack (OperandStack.keeps_only_shuffle operation) frame only

/-- The frame adds a constant in its next step: that executes an increment. -/
def Adds (frame : Frame) (heap : Heap) (constant : Int) : Prop :=
  (∃ index, frame.cursor.HoldsIncrement index constant) ∧
    (step.attempt (frame, heap)).1 = .ok .proceed

/-- A step that goes on moves values about or adds a constant to an integer. -/
theorem only_of_proceed (only : frame.Only allowed)
    (proceeds : step.attempt (frame, heap) = (.ok .proceed, (next, later))) :
    next.Only allowed ∨ ∃ constant number, frame.Adds heap constant ∧ allowed (.int number) ∧
      next.Only fun value => allowed value ∨ value = .int (number + Int32.ofInt constant) := by
  obtain ⟨complete, held⟩ := exists_holds_of_step proceeds
  have behind (count : Nat) : (frame.behind count).Only allowed := ⟨only.stack, only.locals⟩
  cases used : complete.localUse? with
  | none =>
    cases complete with
    | plain instruction unprefixed =>
      rw [attempt_step_of_plain held] at proceeds
      exact Or.inl (only_of_execute used unprefixed (behind _) proceeds)
    | widened => cases used
  | some usage =>
    have goesOn : (step.attempt (frame, heap)).1 = .ok .proceed := by rw [proceeds]
    rw [attempt_step_of_localUse? held used, Prod.mk.injEq, Prod.mk.injEq] at proceeds
    obtain ⟨answer, rfl, -⟩ := proceeds
    obtain ⟨_, done, -⟩ := Except.exists_of_map_eq_ok answer
    obtain ⟨form, index, added⟩ := usage
    cases form with
    | load kind => exact Or.inl (keeps_only_load kind index _ (behind _))
    | store kind => exact Or.inl (keeps_only_store kind index _ (behind _))
    | ret => exact Or.inl (keeps_only_returnTo index _ (behind _))
    | iinc =>
      obtain ⟨constant, increment, rfl⟩ := held.exists_holdsIncrement used
      obtain ⟨number, given, sums⟩ := only_of_increment (behind _) (Prod.ext done rfl)
      exact Or.inr ⟨constant, number, ⟨⟨index, increment⟩, goesOn⟩, given, sums⟩

/-- A step moves values about or adds a constant to an integer. -/
theorem only_of_step {thread : ThreadId} (wellFormed : frame.WellFormed thread)
    (only : frame.Only allowed) (heap : Heap) :
    (step.attempt (frame, heap)).2.1.Only allowed ∨
      ∃ constant number, frame.Adds heap constant ∧ allowed (.int number) ∧
        (step.attempt (frame, heap)).2.1.Only fun value =>
          allowed value ∨ value = .int (number + Int32.ofInt constant) := by
  rcases outcome : step.attempt (frame, heap) with ⟨fault | _ | _ | _, next, later⟩
  · obtain ⟨-, cursor, -, -, moved⟩ := step_of_error wellFormed outcome
    refine Or.inl (moved.only ?_)
    split
    · have popped : (pop.attempt frame).2.Only allowed := keeps_only_pop frame only
      exact ⟨popped.stack, popped.locals⟩
    · exact ⟨only.stack, only.locals⟩
  · exact only_of_proceed only outcome
  · cases (attempt_step_of_blocked wellFormed (blocked_of_yield outcome)).symm.trans outcome
    exact Or.inl ⟨only.stack, only.locals⟩
  · cases (attempt_step_of_exhausted (isExhausted_of_endOfCode outcome) heap).symm.trans outcome
    exact Or.inl only

/-! ### Runs -/

/-- The constants that a frame adds, in order, in steps against some heaps, one after the other. -/
inductive AddsInTurn : Frame → List Heap → List Int → Prop
  | done (frame : Frame) : AddsInTurn frame [] []
  | add {frame : Frame} {heap : Heap} {later : List Heap} {constant : Int} {constants : List Int}
      (adds : frame.Adds heap constant)
      (rest : AddsInTurn (step.attempt (frame, heap)).2.1 later constants) :
      AddsInTurn frame (heap :: later) (constant :: constants)
  | pass {frame : Frame} {heap : Heap} {later : List Heap} {constants : List Int}
      (nothing : ∀ constant, ¬ frame.Adds heap constant)
      (rest : AddsInTurn (step.attempt (frame, heap)).2.1 later constants) :
      AddsInTurn frame (heap :: later) constants

/-- Where a value comes from: it is allowed, or it is the sum of an integer that is allowed and
some of the constants, each taken once. -/
inductive ComesOf (allowed : Value → Prop) (constants : List Int) : Value → Prop
  | given {value : Value} (fine : allowed value) : ComesOf allowed constants value
  | added {number : Int32} {picked : List Int} (fine : allowed (.int number))
      (among : picked.Sublist constants) :
      ComesOf allowed constants (.int (number + Int32.ofInt picked.sum))

namespace ComesOf

variable {constant : Int} {constants : List Int} {value : Value}

theorem cons (comes : ComesOf allowed constants value) (constant : Int) :
    ComesOf allowed (constant :: constants) value := by
  cases comes with
  | given fine => exact .given fine
  | added fine among => exact .added fine (among.cons constant)

/-- What comes of a first sum comes of the integer in it and of one more constant. -/
theorem of_sum {number : Int32} (fine : allowed (.int number))
    (comes : ComesOf (fun other => allowed other ∨ other = .int (number + Int32.ofInt constant))
      constants value) : ComesOf allowed (constant :: constants) value := by
  cases comes with
  | given known =>
    obtain before | rfl := known
    · exact .given before
    · have alone : [constant].Sublist (constant :: constants) :=
        (List.nil_sublist constants).cons_cons constant
      have sum : ComesOf allowed (constant :: constants) _ := .added fine alone
      rwa [List.sum_singleton] at sum
  | @added other picked known among =>
    obtain before | made := known
    · exact .added before (among.cons constant)
    · cases made
      rw [Int32.add_assoc, ← Int32.ofInt_add, ← List.sum_cons]
      exact .added fine (among.cons_cons constant)

/-- An integer that comes of others is congruent to one of them and some of the constants. -/
theorem exists_modEq {number : Int32} (comes : ComesOf allowed constants (.int number)) :
    ∃ (given : Int32) (picked : List Int), allowed (.int given) ∧ picked.Sublist constants ∧
      number.toInt ≡ given.toInt + picked.sum [ZMOD 2 ^ 32] := by
  cases comes with
  | given fine => exact ⟨number, [], fine, List.nil_sublist _, by simp⟩
  | @added given picked fine among =>
    refine ⟨given, picked, fine, among, Int32.toInt_modEq_iff.mpr ?_⟩
    rw [Int32.ofInt_add, Int32.ofInt_toInt]

end ComesOf

/-- However a frame goes on, what it contains comes of the values that it had and the constants
that it added. -/
theorem exists_addsInTurn {thread : ThreadId} (wellFormed : frame.WellFormed thread)
    (only : frame.Only allowed) (heaps : List Heap) :
    ∃ constants, frame.AddsInTurn heaps constants ∧
      (frame.afterSteps heaps).Only (ComesOf allowed constants) := by
  induction heaps generalizing frame allowed with
  | nil => exact ⟨[], .done frame, only.mono fun _ => .given⟩
  | cons heap later inductionHypothesis =>
    have stillWellFormed := keeps_step_wellFormed (frame, heap) wellFormed
    -- The rest of the run starts from what the first step left: the same values or one sum more.
    obtain moved | ⟨constant, number, adds, fine, sums⟩ := only_of_step wellFormed only heap
    · obtain ⟨constants, rest, values⟩ := inductionHypothesis stillWellFormed moved
      -- Should the step add a constant nevertheless, then no value needs it.
      by_cases adds : ∃ constant, frame.Adds heap constant
      · obtain ⟨constant, adds⟩ := adds
        exact ⟨_, .add adds rest, values.mono fun _ comes => comes.cons constant⟩
      · exact ⟨_, .pass (not_exists.mp adds) rest, values⟩
    · obtain ⟨constants, rest, values⟩ := inductionHypothesis stillWellFormed sums
      exact ⟨_, .add adds rest, values.mono fun _ comes => comes.of_sum fine⟩

/-- A new frame contains nothing but the arguments. -/
theorem only_of_create {σ : Type} {state after : σ} {thread : ThreadId} {method : Method}
    {arguments : List Value}
    (created : (create thread method arguments).attempt state = (.ok frame, after)) :
    frame.Only (· ∈ arguments) := by
  obtain ⟨locals, laid, rfl⟩ := exists_locals_of_create created
  have only : ((Locals.lay 0 arguments).attempt (Locals.blank method.maxLocals)).2.Only
      fun _ => (· ∈ arguments) :=
    Locals.keeps_only_lay (fun _ member _ => member) 0 _ (Locals.only_blank method.maxLocals)
  rw [Locals.lay_of_create laid] at only
  exact ⟨OperandStack.only_empty _, only⟩

/-- A step changes no monitor but that of an object to which the frame has a reference. -/
theorem monitorAt_step {reference : ObjectRef} (none : ¬ frame.Contains (.reference reference))
    (heap : Heap) : (step.attempt (frame, heap)).2.2.monitorAt reference.index.toNat =
      heap.monitorAt reference.index.toNat := by
  obtain ⟨answer, apart⟩ | ⟨held, top, isLocal⟩ := reach_step frame
  · exact congrArg (Heap.monitorAt · reference.index.toNat) (congrArg Prod.snd (apart heap))
  · have other : reference.index.toNat ≠ held.index.toNat := by
      intro same
      have equal : reference = held := congrArg ObjectRef.mk (UInt32.toNat_inj.mp same)
      exact none (equal ▸ Or.inl (List.mem_of_mem_head? top))
    exact ((isLocal.agreeOn_others (fun same => other same) heap).monitorAt_eq _ rfl).symm

/-- No instruction forges a value. After any steps of a new frame, against any heaps, failing and
waiting ones included, every value on the operand stack or in a local variable that is no integer
is one of the arguments; every integer there is congruent, modulo two to the 32, to an integer
among the arguments and some of the constants of the increments that were executed, each taken
once. So a step never changes the monitor of an object to which no argument refers. -/
theorem no_value_forged {thread : ThreadId} {method : Method} {arguments : List Value}
    (created : (create thread method arguments).attempt () = (.ok frame, ()))
    (heaps : List Heap) :
    let reached := frame.afterSteps heaps
    (∀ value, reached.Contains value → (∀ number, value ≠ .int number) → value ∈ arguments) ∧
    (∃ constants, frame.AddsInTurn heaps constants ∧
      ∀ number, reached.Contains (.int number) →
        ∃ (given : Int32) (picked : List Int), .int given ∈ arguments ∧
          picked.Sublist constants ∧
          number.toInt ≡ given.toInt + picked.sum [ZMOD 2 ^ 32]) ∧
    ∀ reference : ObjectRef, .reference reference ∉ arguments → ∀ heap : Heap,
      (step.attempt (reached, heap)).2.2.monitorAt reference.index.toNat =
        heap.monitorAt reference.index.toNat := by
  intro reached
  obtain ⟨constants, added, only⟩ :=
    exists_addsInTurn (wellFormed_of_create created) (only_of_create created) heaps
  have argument : ∀ value, reached.Contains value → (∀ number, value ≠ .int number) →
      value ∈ arguments := by
    intro value contains noInt
    cases only.of_contains contains with
    | given fine => exact fine
    | added => exact absurd rfl (noInt _)
  refine ⟨argument, ⟨constants, added, fun number contains => ?_⟩, fun reference absent heap => ?_⟩
  · exact (only.of_contains contains).exists_modEq
  · exact monitorAt_step (fun contains => absent (argument _ contains nofun)) heap

/-- A frame that is to lock an object and then to add to an integer and load it. -/
def lockAndAdd : Frame :=
  ⟨⟨2⟩, 0, .start #[0x2b, 0xc2, 0x84, 0x00, 0x03, 0x1a],
    ⟨[.entry (.int 5), .entry (.reference ⟨0⟩)]⟩, .empty 1⟩

/-- Having waited for the object once, the frame has the sum of its integer and the constant, and
the object beside the one that it locks is none of its business. -/
theorem no_value_forged_added :
    let heap : Heap := ⟨#[⟨"A", none⟩, ⟨"B", some ⟨⟨9⟩, 1⟩⟩], 2⟩
    let heaps := [heap, lockedHeap ⟨1⟩, heap, heap, heap]
    (create ⟨2⟩ ⟨lockAndAdd.cursor.code, 1, 2⟩ [.int 5, .reference ⟨0⟩]).attempt () =
        (.ok lockAndAdd, ()) ∧
      (lockAndAdd.afterSteps heaps).stack.values = [.int 8] ∧
      (∃ constants, lockAndAdd.AddsInTurn heaps constants ∧
        ∃ (given : Int32) (picked : List Int), Value.int given ∈ [.int 5, .reference ⟨0⟩] ∧
          picked.Sublist constants ∧ 8 ≡ given.toInt + picked.sum [ZMOD 2 ^ 32]) ∧
      (step.attempt (lockAndAdd.afterSteps [heap], heap)).2.2.monitorAt 1 =
        some ⟨⟨9⟩, 1⟩ := by
  intro heap heaps
  have created : (create ⟨2⟩ ⟨lockAndAdd.cursor.code, 1, 2⟩ [.int 5, .reference ⟨0⟩]).attempt () =
      (.ok lockAndAdd, ()) := rfl
  have onTop : (lockAndAdd.afterSteps heaps).stack.values = [.int 8] := by
    decide +kernel
  obtain ⟨-, ⟨constants, added, sums⟩, -⟩ := no_value_forged created heaps
  have apart := (no_value_forged created [heap]).2.2 ⟨1⟩ (by decide) heap
  exact ⟨created, onTop, ⟨constants, added, sums 8 (Or.inl (onTop ▸ List.mem_cons_self))⟩, apart⟩

end BytecodeMachine.Frame
