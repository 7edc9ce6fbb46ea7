/-
This file adds up increments. An increment writes an integer where an integer
stands, and in a table of local variables that is in order such a write touches
no other slot. Main statement: steps of a frame that find nothing but increments
of one integer, narrow and wide ones in any order, all go on, and leave the sum
modulo two to the 32 in its slot and everything else in the frame as it was.
-/

import Mathlib.Data.Int.ModEq
import BytecodeMachine.Proofs.Frame.LocalAccess
import BytecodeMachine.Proofs.Frame.Retry
import BytecodeMachine.Proofs.Locals.Layout

namespace BytecodeMachine

/-! ### Increments in code -/

/-- An increment of a local variable lies at the cursor, in its narrow form or behind a wide
prefix. Its constant is a signed number of one byte or of two. -/
inductive Cursor.HoldsIncrement (cursor : Cursor) : (index : Nat) → (constant : Int) → Prop
  | narrow {index : UInt8} {constant : Int8}
      (held : cursor.Holds (.plain (.iinc index constant) nofun)) :
      HoldsIncrement cursor index.toNat constant.toInt
  | wide {index : UInt16} {constant : Int16} (held : cursor.Holds (.widened .iinc index constant)) :
      HoldsIncrement cursor index.toNat constant.toInt

/-- An increment is a use of its variable; the constant is extended to 32 bits with its sign. -/
theorem Cursor.HoldsIncrement.exists_localUse? {cursor : Cursor} {index : Nat} {constant : Int}
    (held : cursor.HoldsIncrement index constant) :
    ∃ complete, cursor.Holds complete ∧
      complete.localUse? = some ⟨.iinc, index, Int32.ofInt constant⟩ := by
  cases held with
  | narrow held => exact ⟨_, held, by rw [Int32.ofInt_int8ToInt]; rfl⟩
  | wide held => exact ⟨_, held, by rw [Int32.ofInt_int16ToInt]; rfl⟩

/-- No other use of a local variable is an increment. -/
theorem Cursor.Holds.exists_holdsIncrement {cursor : Cursor} {complete : CompleteInstruction}
    {index : Nat} {added : Int32} (held : cursor.Holds complete)
    (used : complete.localUse? = some ⟨.iinc, index, added⟩) :
    ∃ constant, cursor.HoldsIncrement index constant ∧ Int32.ofInt constant = added := by
  cases complete with
  | plain instruction unprefixed =>
    cases instruction <;> cases used
    exact ⟨_, .narrow held, Int32.ofInt_int8ToInt _⟩
  | widened form index constant =>
    cases used
    exact ⟨_, .wide held, Int32.ofInt_int16ToInt _⟩

/-- A number of 32 bits is the only one that is congruent to it. -/
theorem Int32.toInt_modEq_iff {number : Int32} {sum : Int} :
    number.toInt ≡ sum [ZMOD 2 ^ 32] ↔ number = Int32.ofInt sum := by
  constructor
  · intro same
    rw [← Int32.ofInt_toInt number, ← Int32.toInt_inj, Int32.toInt_ofInt, Int32.toInt_ofInt,
      ← Int.emod_bmod, ← Int.emod_bmod sum]
    exact congrArg (Int.bmod · Int32.size) same
  · rintro rfl
    rw [Int32.toInt_ofInt]
    exact Int.bmod_emod

namespace Frame

/-! ### Frames with their local variables in order -/

/-- No instruction brings the local variables out of order. -/
theorem invariant_inOrder (thread : ThreadId) :
    Invariant thread .anything fun frame => frame.WellFormed thread ∧ frame.locals.InOrder where
  thread_eq holds := holds.1.thread_eq
  remembers pc holds := ⟨(invariant_wellFormed thread).remembers pc holds.1, holds.2⟩
  keeps_reading forward := (keeps_reading forward).and fun frame inOrder => by
    rw [attempt_reading]
    exact inOrder
  keeps_goto target := (keeps_goto target).and fun frame inOrder => by
    rw [attempt_goto]
    split <;> exact inOrder
  keeps_pop := keeps_pop.and fun _ inOrder => inOrder
  gives_pop := fun _ _ _ _ => trivial
  keeps_push _ := (keeps_push _).and fun _ inOrder => inOrder
  keeps_shuffle operation := ((invariant_wellFormed thread).keeps_shuffle operation).and
    fun _ inOrder => inOrder
  gives_getLocal := fun _ _ _ _ _ => trivial
  keeps_setLocal _ := (keeps_onLocals _).and fun frame inOrder =>
    Locals.keeps_inOrder_set _ _ frame.locals inOrder

theorem Reachable.locals_inOrder {frame : Frame} (reachable : frame.Reachable) :
    frame.locals.InOrder := by
  induction reachable with
  | create created =>
    obtain ⟨locals, laid, rfl⟩ := exists_locals_of_create created
    exact Locals.inOrder_of_create laid
  | @step frame before heap inductionHypothesis =>
    exact ((invariant_inOrder frame.thread).keeps_step_frame (frame, heap)
      ⟨before.wellFormed, inductionHypothesis⟩).2
  | push before value inductionHypothesis => exact inductionHypothesis
  | pop before inductionHypothesis => exact inductionHypothesis
  | setLocal before index value inductionHypothesis =>
    exact Locals.keeps_inOrder_set index value _ inductionHypothesis

/-! ### Increments of one integer -/

/-- The local variables are in order, and an integer stands at an index. -/
structure HoldsInt (frame : Frame) (index : Nat) (number : Int32) : Prop where
  inOrder : frame.locals.InOrder
  found : frame.locals.slot? index = some (.entry (.int number))

namespace HoldsInt

variable {frame : Frame} {index : Nat} {number : Int32}

/-- An increment of an integer always succeeds and changes nothing else. -/
theorem attempt_increment (holds : frame.HoldsInt index number) (constant : Int32) :
    (increment index constant).attempt frame =
      (.ok (), { frame with
        locals := frame.locals.replace index (.int (number + constant)) }) := by
  have read : (getLocal index).attempt frame = (.ok (.int number), frame) := by
    rw [getLocal, Action.attempt_inspect, Locals.get_eq_ok_iff.mpr holds.found]
  have sameWidth : (Value.int (number + constant)).slots = (Value.int number).slots := rfl
  rw [increment, Action.attempt_bind_of_ok _ read]
  simp only [attempt_setLocal, holds.inOrder.attempt_set holds.found sameWidth]

theorem replace (holds : frame.HoldsInt index number) {next : Frame} {other : Int32}
    (sameLocals : next.locals = frame.locals.replace index (.int other)) :
    next.HoldsInt index other := by
  have sameWidth : (Value.int other).slots = (Value.int number).slots := rfl
  refine ⟨sameLocals ▸ holds.inOrder.replace holds.found sameWidth, ?_⟩
  rw [sameLocals, Locals.slot?_replace (Locals.lt_size_of_slot? holds.found), if_pos rfl]

/-- A step at an increment of an integer goes on with the sum in place of the integer. -/
theorem attempt_step (holds : frame.HoldsInt index number) {constant : Int}
    (held : frame.cursor.HoldsIncrement index constant) (heap : Heap) :
    ∃ next, step.attempt (frame, heap) = (.ok .proceed, (next, heap)) ∧
      next.locals = frame.locals.replace index (.int (number + Int32.ofInt constant)) ∧
      next.stack = frame.stack := by
  obtain ⟨complete, whole, used⟩ := held.exists_localUse?
  have behind : (frame.behind complete.length).HoldsInt index number := ⟨holds.inOrder, holds.found⟩
  exact ⟨_, attempt_step_of_perform whole used (behind.attempt_increment _) heap, rfl, rfl⟩

end HoldsInt

/-- What the next steps of a frame find, each against a heap of its own, are increments of the
local variable at an index by certain constants. -/
inductive Increments (index : Nat) : Frame → List Heap → List Int → Prop
  | done (frame : Frame) : Increments index frame [] []
  | next {frame : Frame} {heap : Heap} {later : List Heap} {constant : Int} {constants : List Int}
      (held : frame.cursor.HoldsIncrement index constant)
      (rest : Increments index (step.attempt (frame, heap)).2.1 later constants) :
      Increments index frame (heap :: later) (constant :: constants)

namespace Increments

variable {frame : Frame} {index : Nat} {number : Int32} {heaps : List Heap} {constants : List Int}

/-- Increments of an integer all go on. -/
theorem attempt_step (increments : Increments index frame heaps constants)
    (holds : frame.HoldsInt index number) {earlier : List Heap} {heap : Heap}
    (among : earlier ++ [heap] <+: heaps) :
    step.attempt (frame.afterSteps earlier, heap) =
      (.ok .proceed, (frame.afterSteps (earlier ++ [heap]), heap)) := by
  induction increments generalizing earlier number with
  | done => simp at among
  | @next frame first later constant constants held rest inductionHypothesis =>
    obtain ⟨next, stepped, sameLocals, -⟩ := holds.attempt_step held first
    rw [stepped] at rest inductionHypothesis
    cases earlier with
    | nil =>
      obtain ⟨rfl, -⟩ := List.cons_prefix_cons.mp among
      rw [afterSteps, stepped, List.nil_append, afterSteps, afterSteps, stepped]
    | cons other earlier =>
      obtain ⟨rfl, behind⟩ := List.cons_prefix_cons.mp among
      rw [List.cons_append, afterSteps, afterSteps, stepped]
      exact inductionHypothesis (holds.replace sameLocals) behind

/-- Increments of an integer leave the sum in its place and everything else as it was. -/
theorem afterSteps_eq (increments : Increments index frame heaps constants)
    (holds : frame.HoldsInt index number) :
    (frame.afterSteps heaps).locals =
        frame.locals.replace index (.int (Int32.ofInt (number.toInt + constants.sum))) ∧
      (frame.afterSteps heaps).stack = frame.stack := by
  induction increments generalizing number with
  | done =>
    refine ⟨?_, rfl⟩
    rw [List.sum_nil, Int.add_zero, Int32.ofInt_toInt, Locals.replace_self holds.found]
    rfl
  | @next frame first later constant constants held rest inductionHypothesis =>
    obtain ⟨next, stepped, sameLocals, sameStack⟩ := holds.attempt_step held first
    rw [stepped] at rest inductionHypothesis
    obtain ⟨total, stack⟩ := inductionHypothesis (holds.replace sameLocals)
    have added : Int32.ofInt ((number + Int32.ofInt constant).toInt + constants.sum) =
        Int32.ofInt (number.toInt + (constant :: constants).sum) := by
      rw [List.sum_cons, Int32.ofInt_add, Int32.ofInt_toInt, Int32.ofInt_add, Int32.ofInt_add,
        Int32.ofInt_toInt, Int32.add_assoc]
    rw [afterSteps, stepped]
    refine ⟨?_, stack.trans sameStack⟩
    rw [total, sameLocals, Locals.replace_replace, added]

end Increments

/-- Increments of one integer add up modulo two to the 32, in every encoding and order. Where a
frame holds an integer in a local variable and its next steps find narrow or wide increments of
that variable, all of them go on and leave the heap as it is. Afterwards the variable holds the
one number of 32 bits that is congruent to the sum of the integer and the constants, so that
increments of any frame that holds this integer leave the same number if their constants have
that sum; all other slots and the operand stack are as they were. -/
theorem increments_add_up {frame : Frame} (reachable : frame.Reachable) {index : Nat}
    {number : Int32} (found : frame.locals.slot? index = some (.entry (.int number)))
    {heaps : List Heap} {constants : List Int}
    (increments : frame.Increments index heaps constants) :
    let reached := frame.afterSteps heaps
    (∀ earlier heap, earlier ++ [heap] <+: heaps →
      step.attempt (frame.afterSteps earlier, heap) =
        (.ok .proceed, (frame.afterSteps (earlier ++ [heap]), heap))) ∧
    (∃ total, reached.locals.slot? index = some (.entry (.int total)) ∧
      ∀ other : Int32, other.toInt ≡ number.toInt + constants.sum [ZMOD 2 ^ 32] ↔
        other = total) ∧
    (∀ target, target ≠ index → reached.locals.slot? target = frame.locals.slot? target) ∧
    reached.stack = frame.stack ∧
    ∀ (other : Frame) (otherHeaps : List Heap) (otherConstants : List Int), other.Reachable →
      other.locals.slot? index = some (.entry (.int number)) →
      other.Increments index otherHeaps otherConstants → otherConstants.sum = constants.sum →
        (other.afterSteps otherHeaps).locals.slot? index = reached.locals.slot? index := by
  intro reached
  have holds : frame.HoldsInt index number := ⟨reachable.locals_inOrder, found⟩
  obtain ⟨locals, stack⟩ := increments.afterSteps_eq holds
  have slots := Locals.slot?_replace (Locals.lt_size_of_slot? found)
    (.int (Int32.ofInt (number.toInt + constants.sum)))
  rw [← locals] at slots
  refine ⟨fun earlier heap => increments.attempt_step holds,
    ⟨Int32.ofInt (number.toInt + constants.sum), ?_, fun other => Int32.toInt_modEq_iff⟩,
    fun target away => ?_, stack, fun other otherHeaps otherConstants otherReachable otherFound
      otherIncrements sameSum => ?_⟩
  · rw [slots, if_pos rfl]
  · rw [slots, if_neg away]
  · obtain ⟨otherLocals, -⟩ :=
      otherIncrements.afterSteps_eq ⟨otherReachable.locals_inOrder, otherFound⟩
    rw [otherLocals, Locals.slot?_replace (Locals.lt_size_of_slot? otherFound), if_pos rfl, slots,
      if_pos rfl, sameSum]

/-- A frame with the greatest integer behind a number of category two. -/
def behindLong (code : Array UInt8) : Frame :=
  ⟨⟨0⟩, 0, .start code, ⟨[.entry (.long 1), .upperHalf, .entry (.int 2147483647)]⟩, .empty 0⟩

/-- A narrow increment by one runs over, and a wide one by minus two comes back. -/
theorem increments_add_up_wrapping :
    let frame := behindLong #[0x84, 0x02, 0x01, 0xc4, 0x84, 0x00, 0x02, 0xff, 0xfe]
    frame.Reachable ∧ frame.Increments 2 [.empty 0, .empty 0] [1, -2] ∧
      (frame.afterSteps [.empty 0, .empty 0]).locals.slot? 2 =
        some (.entry (.int 2147483646)) := by
  intro frame
  have created : (create ⟨0⟩ ⟨frame.cursor.code, 0, 3⟩ [.long 1, .int 2147483647]).attempt () =
      (.ok frame, ()) := rfl
  have narrow : frame.cursor.HoldsIncrement 2 1 :=
    @Cursor.HoldsIncrement.narrow _ 2 1 ⟨_, ⟨_, rfl, rfl⟩, ⟨_, rfl⟩⟩
  have wide : (frame.afterSteps [.empty 0]).cursor.HoldsIncrement 2 (-2) :=
    @Cursor.HoldsIncrement.wide _ 2 (-2) ⟨_, rfl, ⟨[], rfl⟩⟩
  have increments : frame.Increments 2 [.empty 0, .empty 0] [1, -2] :=
    .next narrow (.next wide (.done _))
  have reachable : frame.Reachable := .create created
  obtain ⟨-, ⟨total, stands, only⟩, -⟩ := increments_add_up reachable rfl increments
  refine ⟨reachable, increments, ?_⟩
  rw [stands, (only 2147483646).mp rfl]

end Frame

end BytecodeMachine
