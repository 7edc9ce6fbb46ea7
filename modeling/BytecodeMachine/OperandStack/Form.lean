/-
This file says how the operand stack is shuffled. Each shuffle has a short list
of forms; a form fits when the values on top have its categories. The narrowest
form that fits is taken, and nothing is popped unless a form fits and its
result has room.
-/

import BytecodeMachine.OperandStack

namespace BytecodeMachine

/-! ### Forms -/

/-- A form of a shuffle: the categories of the values it takes, top first, and what takes their
place, from bottom to top, each given by its place among the values taken. -/
structure ShuffleForm where
  pattern : List Category
  arrangement : List Nat
deriving DecidableEq

namespace ShuffleForm

/-- A form fits when the values on top of the stack have the categories of its pattern. -/
def fits (form : ShuffleForm) (values : List Value) : Bool :=
  (values.take form.pattern.length).map Value.category == form.pattern

/-- The things that take the place of those taken, from bottom to top. -/
def arrange {α : Type} (form : ShuffleForm) (taken : List α) : List α :=
  form.arrangement.filterMap (taken[·]?)

/-- How many more slots the result takes than what it replaces. -/
def growth (form : ShuffleForm) : Nat :=
  Category.sumSlots (form.arrange form.pattern) - Category.sumSlots form.pattern

end ShuffleForm

namespace Shuffle

/-- The forms of a shuffle, the narrowest first. -/
def forms : Shuffle → List ShuffleForm
  | pop => [⟨[.one], []⟩]
  | pop2 => [⟨[.two], []⟩, ⟨[.one, .one], []⟩]
  | dup => [⟨[.one], [0, 0]⟩]
  | dupX1 => [⟨[.one, .one], [0, 1, 0]⟩]
  | dupX2 => [⟨[.one, .two], [0, 1, 0]⟩, ⟨[.one, .one, .one], [0, 2, 1, 0]⟩]
  | dup2 => [⟨[.two], [0, 0]⟩, ⟨[.one, .one], [1, 0, 1, 0]⟩]
  | dup2X1 => [⟨[.two, .one], [0, 1, 0]⟩, ⟨[.one, .one, .one], [1, 0, 2, 1, 0]⟩]
  | dup2X2 =>
    [⟨[.two, .two], [0, 1, 0]⟩, ⟨[.one, .one, .two], [1, 0, 2, 1, 0]⟩,
      ⟨[.two, .one, .one], [0, 2, 1, 0]⟩, ⟨[.one, .one, .one, .one], [1, 0, 3, 2, 1, 0]⟩]
  | swap => [⟨[.one, .one], [0, 1]⟩]

/-- The first form that fits the values, if there is one. -/
def form? (operation : Shuffle) (values : List Value) : Option ShuffleForm :=
  operation.forms.find? (·.fits values)

/-- The number of values without which no form can fit. -/
def fewestValues (operation : Shuffle) : Nat :=
  (operation.forms.map (·.pattern.length)).min?.getD 0

/-- How many slots a shuffle copies. -/
def copiedSlots : Shuffle → Nat
  | dup | dupX1 | dupX2 => 1
  | dup2 | dup2X1 | dup2X2 => 2
  | pop | pop2 | swap => 0

/-- Why no form fits: there are too few values, or those on top, of which up to four are named,
have the wrong categories. -/
def mismatch (operation : Shuffle) (values : List Value) : Fault :=
  if values.length < operation.fewestValues then .emptyStack
  else .noMatchingForm operation ((values.take 4).map Value.category)

/-- Whatever form is taken, the stack grows by the slots that the shuffle copies. -/
theorem growth_of_mem_forms (operation : Shuffle) :
    ∀ form ∈ operation.forms, form.growth = operation.copiedSlots := by
  cases operation <;> decide

end Shuffle

/-! ### Shuffling -/

/-- Performs a shuffle: finds its form, makes sure of the room, takes the values off the stack
and puts the result in their place. -/
def OperandStack.shuffle (operation : Shuffle) : Action OperandStack Unit := do
  let stack ← get
  match operation.form? stack.values with
  | none => Action.fail (operation.mismatch stack.values)
  | some form =>
    reserve form.growth
    let taken ← popMany form.pattern.length
    pushAll (form.arrange taken)

end BytecodeMachine
