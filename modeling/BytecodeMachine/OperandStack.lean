/-
This file holds the operand stack of a frame. Its capacity is counted in slots,
and so is what is in use: a value of category two takes two slots although it
is a single entry. A push that does not fit and a pop from nothing fail and
change nothing.
-/

import BytecodeMachine.Action

namespace BytecodeMachine

/-- An operand stack: its values, top first, the slots they use, and the slots there are. -/
structure OperandStack where
  values : List Value
  used : Nat
  capacity : Nat
deriving DecidableEq

namespace OperandStack

/-- The stack without values. -/
def empty (capacity : Nat) : OperandStack :=
  ⟨[], 0, capacity⟩

/-- Takes the top value off the stack. -/
def pop : Action OperandStack Value := do
  let stack ← get
  match stack.values with
  | [] => Action.fail .emptyStack
  | top :: below =>
    set { stack with values := below, used := stack.used - top.slots }
    Action.report (.stackChanged below)
    return top

/-- Fails unless this many more slots are free. -/
def reserve (slots : Nat) : Action OperandStack Unit := do
  let stack ← get
  if stack.used + slots ≤ stack.capacity then return ()
  else Action.fail .stackOverflow

/-- Puts a value on top of the stack. -/
def push (value : Value) : Action OperandStack Unit := do
  reserve value.slots
  let stack ← get
  let values := value :: stack.values
  set { stack with values, used := stack.used + value.slots }
  Action.report (.stackChanged values)

/-- Takes a number of values off the stack and answers with them, top first. -/
def popMany : Nat → Action OperandStack (List Value)
  | 0 => return []
  | count + 1 => do
    let top ← pop
    return top :: (← popMany count)

/-- Puts values on top of the stack, one after the other. -/
def pushAll : List Value → Action OperandStack Unit
  | [] => return ()
  | value :: later => do
    push value
    pushAll later

/-! ### What the operations amount to -/

theorem run_pop_nil (used capacity : Nat) :
    pop.run ⟨[], used, capacity⟩ = ⟨.error .emptyStack, ⟨[], used, capacity⟩, []⟩ := rfl

theorem run_pop_cons (top : Value) (below : List Value) (used capacity : Nat) :
    pop.run ⟨top :: below, used, capacity⟩ =
      ⟨.ok top, ⟨below, used - top.slots, capacity⟩, [.stackChanged below]⟩ := rfl

theorem run_reserve (slots : Nat) (stack : OperandStack) :
    (reserve slots).run stack =
      if stack.used + slots ≤ stack.capacity then ⟨.ok (), stack, []⟩
      else ⟨.error .stackOverflow, stack, []⟩ := by
  by_cases room : stack.used + slots ≤ stack.capacity <;> simp [reserve, Action.run_bind, room]

theorem run_push (value : Value) (stack : OperandStack) :
    (push value).run stack =
      if stack.used + value.slots ≤ stack.capacity then
        ⟨.ok (), ⟨value :: stack.values, stack.used + value.slots, stack.capacity⟩,
          [.stackChanged (value :: stack.values)]⟩
      else ⟨.error .stackOverflow, stack, []⟩ := by
  by_cases room : stack.used + value.slots ≤ stack.capacity <;>
    simp [push, Action.run_bind, run_reserve, room]

end OperandStack

end BytecodeMachine
