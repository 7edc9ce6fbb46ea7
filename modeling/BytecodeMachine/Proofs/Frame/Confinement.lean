/-
This file bounds what the values in a frame can be. A frame that holds only
values that are allowed goes on to do so, whatever its instructions are: no
instruction makes a value out of nothing, apart from the sums that an increment
computes. Nor does any instruction give the frame other code.
-/

import BytecodeMachine.Proofs.Frame.Step
import BytecodeMachine.Proofs.Locals.Writing

namespace BytecodeMachine

/-! ### Operand stacks -/

theorem ShuffleForm.mem_of_mem_arrange {α : Type} {form : ShuffleForm} {taken : List α} {value : α}
    (member : value ∈ form.arrange taken) : value ∈ taken := by
  obtain ⟨place, -, found⟩ := List.mem_filterMap.mp member
  exact List.mem_of_getElem? found

namespace OperandStack

/-- All values on the stack are allowed. -/
def Only (allowed : Value → Prop) (stack : OperandStack) : Prop :=
  ∀ value ∈ stack.values, allowed value

variable {allowed : Value → Prop}

theorem only_empty (capacity : Nat) : (empty capacity).Only allowed :=
  nofun

theorem keeps_only_pop : pop.Keeps (Only allowed) := by
  rintro ⟨_ | ⟨top, below⟩, used, capacity⟩ only
  · exact only
  · rw [attempt_pop]
    exact fun value member => only value (List.mem_cons_of_mem top member)

/-- What is taken off the stack was allowed there. -/
theorem gives_pop : pop.Gives (Only allowed) allowed := by
  rintro ⟨_ | ⟨top, below⟩, used, capacity⟩ value only answer <;> rw [attempt_pop] at answer <;>
    cases answer
  exact only top List.mem_cons_self

theorem keeps_only_reserve (slots : Nat) : (reserve slots).Keeps (Only allowed) := by
  intro stack only
  rw [attempt_reserve]
  split <;> exact only

theorem keeps_only_push {value : Value} (fine : allowed value) :
    (push value).Keeps (Only allowed) := by
  intro stack only
  rw [attempt_push]
  split
  · exact List.forall_mem_cons.mpr ⟨fine, only⟩
  · exact only

theorem keeps_only_popMany (count : Nat) : (popMany count).Keeps (Only allowed) := by
  induction count with
  | zero => exact Action.Keeps.pure _
  | succ count inductionHypothesis =>
    exact keeps_only_pop.bind fun _ => inductionHypothesis.bind fun _ => Action.Keeps.pure _

theorem gives_popMany (count : Nat) :
    (popMany count).Gives (Only allowed) fun taken => ∀ value ∈ taken, allowed value := by
  induction count with
  | zero => exact Action.Gives.pure nofun
  | succ count inductionHypothesis =>
    refine Action.Gives.bind keeps_only_pop gives_pop fun top fine => ?_
    refine Action.Gives.bind (keeps_only_popMany count) inductionHypothesis fun later allFine => ?_
    exact Action.Gives.pure (List.forall_mem_cons.mpr ⟨fine, allFine⟩)

theorem keeps_only_pushAll {values : List Value} (allFine : ∀ value ∈ values, allowed value) :
    (pushAll values).Keeps (Only allowed) := by
  induction values with
  | nil => exact Action.Keeps.pure _
  | cons value later inductionHypothesis =>
    rw [List.forall_mem_cons] at allFine
    exact (keeps_only_push allFine.1).bind fun _ => inductionHypothesis allFine.2

/-- A shuffle puts nothing on the stack but what it has taken off. -/
theorem keeps_only_shuffle (operation : Shuffle) : (shuffle operation).Keeps (Only allowed) := by
  refine Action.Keeps.get.bind fun stack => ?_
  cases operation.form? stack.values with
  | none => exact Action.Keeps.fail _
  | some form =>
    refine (keeps_only_reserve _).bind fun _ => ?_
    refine Action.Keeps.bind_of_gives (keeps_only_popMany _) (gives_popMany _)
      fun taken allFine => ?_
    exact keeps_only_pushAll fun value member =>
      allFine value (ShuffleForm.mem_of_mem_arrange member)

end OperandStack

/-! ### Local variables -/

namespace Locals

/-- Every value that starts at a local index is allowed there. -/
def Only (allowed : Nat → Value → Prop) (locals : Locals) : Prop :=
  ∀ index value, locals.slot? index = some (.entry value) → allowed index value

variable {allowed : Nat → Value → Prop}

theorem only_blank (size : Nat) : (blank size).Only allowed := by
  intro index value found
  rw [slot?_blank] at found
  split at found <;> cases found

theorem keeps_only_set {index : Nat} {value : Value} (fine : allowed index value) :
    (set index value).Keeps (Only allowed) := by
  intro locals only other found here
  by_cases fits : index + value.slots ≤ locals.size
  · obtain ⟨rfl, rfl⟩ | ⟨before, -⟩ := (slot?_set_eq_entry_iff fits other found).mp here
    · exact fine
    · exact only other found before
  · rw [attempt_set, if_neg fits] at here
    exact only other found here

theorem keeps_only_lay {values : List Value}
    (allFine : ∀ value ∈ values, ∀ index, allowed index value) (start : Nat) :
    (lay start values).Keeps (Only allowed) := by
  induction values generalizing start with
  | nil => exact Action.Keeps.pure _
  | cons value later inductionHypothesis =>
    rw [List.forall_mem_cons] at allFine
    exact (keeps_only_set (allFine.1 start)).bind fun _ => inductionHypothesis allFine.2 _

end Locals

/-! ### Frames -/

namespace Frame

variable {code : Array UInt8} {allowance : Allowance}

/-- The frame runs the code and holds only values that are allowed. -/
structure ConfinedTo (code : Array UInt8) (allowance : Allowance) (frame : Frame) : Prop where
  code_eq : frame.cursor.code = code
  stack_only : frame.stack.Only allowance.onStack
  locals_only : frame.locals.Only allowance.inLocals

theorem keeps_confined_onStack {α : Type} {action : Action OperandStack α}
    (kept : action.Keeps (OperandStack.Only allowance.onStack)) :
    (onStack action).Keeps (ConfinedTo code allowance) :=
  fun frame confined => ⟨confined.code_eq, kept frame.stack confined.stack_only,
    confined.locals_only⟩

theorem keeps_confined_setLocal {index : Nat} {value : Value}
    (fine : allowance.inLocals index value) :
    (setLocal index value).Keeps (ConfinedTo code allowance) :=
  fun frame confined => ⟨confined.code_eq, confined.stack_only,
    Locals.keeps_only_set fine frame.locals confined.locals_only⟩

theorem keeps_confined_reading {α : Type} {reader : Reader α} (forward : reader.Forward) :
    (reading reader).Keeps (ConfinedTo code allowance) := by
  intro frame confined
  rw [attempt_reading]
  exact ⟨(forward frame.cursor).1.trans confined.code_eq, confined.stack_only,
    confined.locals_only⟩

theorem keeps_confined_goto (target : Nat) :
    (goto target).Keeps (ConfinedTo code allowance) := by
  intro frame confined
  rw [attempt_goto]
  split
  · exact ⟨confined.code_eq, confined.stack_only, confined.locals_only⟩
  · exact confined

/-- A frame in order keeps to its code and to the values that it is allowed. -/
theorem invariant_confinedTo (thread : ThreadId) (code : Array UInt8) (allowance : Allowance) :
    Invariant thread allowance fun frame =>
      frame.WellFormed thread ∧ frame.ConfinedTo code allowance where
  thread_eq holds := holds.1.thread_eq
  remembers pc holds := ⟨(invariant_wellFormed thread).remembers pc holds.1, holds.2.code_eq,
    holds.2.stack_only, holds.2.locals_only⟩
  keeps_reading forward := (keeps_reading forward).and (keeps_confined_reading forward)
  keeps_goto target := (keeps_goto target).and (keeps_confined_goto target)
  keeps_pop := keeps_pop.and (keeps_confined_onStack OperandStack.keeps_only_pop)
  gives_pop := fun _ _ holds answer => OperandStack.gives_pop holds.2.stack_only answer
  keeps_push fine :=
    (keeps_push _).and (keeps_confined_onStack (OperandStack.keeps_only_push fine))
  keeps_shuffle operation := ((invariant_wellFormed thread).keeps_shuffle operation).and
    (keeps_confined_onStack (OperandStack.keeps_only_shuffle operation))
  gives_getLocal := fun _ _ _ holds answer =>
    holds.2.locals_only _ _ (Locals.get_eq_ok_iff.mp answer)
  keeps_setLocal fine := (keeps_onLocals _).and (keeps_confined_setLocal fine)

end Frame

end BytecodeMachine
