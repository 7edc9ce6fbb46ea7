/-
This file holds the local variables of a frame. A value of category two fills
the slot that it starts in and the one above; a write that covers one half of
such a value makes the other half unreadable.
-/

import BytecodeMachine.Action

namespace BytecodeMachine

/-- The local variables of a frame, one slot after the other. -/
structure Locals where
  slots : List Slot
deriving DecidableEq

namespace Locals

/-- A table in which nothing has been written. -/
def blank (size : Nat) : Locals :=
  ⟨List.replicate size .uninitialized⟩

/-- How many slots the table has. -/
def size (locals : Locals) : Nat :=
  locals.slots.length

/-- The slot at an index, if the table reaches that far. -/
def slot? (locals : Locals) (index : Nat) : Option Slot :=
  locals.slots[index]?

/-- The value that starts at an index. -/
def get (locals : Locals) (index : Nat) : Except Fault Value :=
  match locals.slot? index with
  | none => .error .indexOutOfBounds
  | some (.entry value) => .ok value
  | some .upperHalf | some .uninitialized => .error (.invalidLocal index)

/-! ### Writing -/

/-- Makes the slot below an index unreadable if a value of category two starts there. -/
def clearBelow (slots : List Slot) : Nat → List Slot
  | 0 => slots
  | below + 1 =>
    if slots[below]?.any Slot.isWide then slots.set below .uninitialized else slots

/-- Makes the slot above an index unreadable if it is the upper half of a value of category two
that starts at the index. -/
def clearAbove (slots : List Slot) (index : Nat) : List Slot :=
  if slots[index + 1]? = some .upperHalf ∧ slots[index]?.any Slot.isWide then
    slots.set (index + 1) .uninitialized
  else slots

/-- Puts a value into the slots from an index on. -/
def place (slots : List Slot) (index : Nat) (value : Value) : List Slot :=
  let started := slots.set index (.entry value)
  match value.category with
  | .one => started
  | .two => started.set (index + 1) .upperHalf

/-- Writes a value from an index on. The values that it cuts in half, of which one may start
below and one may end above, can no longer be read. -/
def set (index : Nat) (value : Value) : Action Locals Unit := do
  let locals ← MonadState.get
  if index + value.slots ≤ locals.size then
    let last := index + value.slots - 1
    let spared := clearAbove (clearBelow locals.slots index) last
    let slots := place spared index value
    MonadState.set (⟨slots⟩ : Locals)
    Action.report (.localsChanged slots)
  else Action.fail .indexOutOfBounds

/-- Writes values one after the other, each behind the slots of the one before. -/
def lay : Nat → List Value → Action Locals Unit
  | _, [] => return ()
  | index, value :: later => do
    set index value
    lay (index + value.slots) later

/-- A table with the arguments of a method in its first slots. -/
def create {σ : Type} (size : Nat) (arguments : List Value) : Action σ Locals :=
  Action.build (blank size) (lay 0 arguments)

theorem run_set (index : Nat) (value : Value) (locals : Locals) :
    (set index value).run locals =
      if index + value.slots ≤ locals.size then
        let slots := place (clearAbove (clearBelow locals.slots index) (index + value.slots - 1))
          index value
        ⟨.ok (), ⟨slots⟩, [.localsChanged slots]⟩
      else ⟨.error .indexOutOfBounds, locals, []⟩ := by
  by_cases inside : index + value.slots ≤ locals.size
  · simp only [inside, if_true]
    unfold set
    rw [Action.run_bind]
    simp only [Action.run_get, inside, if_true]
    rfl
  · simp [set, Action.run_bind, inside]

end Locals

end BytecodeMachine
