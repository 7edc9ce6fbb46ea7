/-
This file holds the values that stand on an operand stack or in a local slot.
A value belongs to one of two categories, which say how many slots it takes.
Floating-point numbers are kept as their bits; equality of values as Lean terms
is therefore finer than equality of the numbers they stand for.
-/

import BytecodeMachine.FloatFormat.Shortest
import BytecodeMachine.Identity

namespace BytecodeMachine

/-! ### Categories -/

/-- The computational category of a value. -/
inductive Category
  | one
  | two
deriving DecidableEq

namespace Category

/-- A value of category two takes two slots, any other value one. -/
def slots : Category → Nat
  | one => 1
  | two => 2

/-- The slots that values of some categories take together. -/
def sumSlots : List Category → Nat
  | [] => 0
  | first :: later => first.slots + sumSlots later

/-- The written name of a category. -/
def text : Category → String
  | one => "One"
  | two => "Two"

theorem slots_pos (category : Category) : 0 < category.slots := by
  cases category <;> decide

theorem sumSlots_append (left right : List Category) :
    sumSlots (left ++ right) = sumSlots left + sumSlots right := by
  induction left with
  | nil => exact (Nat.zero_add _).symm
  | cons first later inductionHypothesis =>
    rw [List.cons_append, sumSlots, inductionHypothesis, sumSlots, Nat.add_assoc]

end Category

/-! ### Values -/

/-- A value is a number, a reference to an object, the null reference or a saved code offset. -/
inductive Value
  | int (number : Int32)
  | long (number : Int64)
  | float (bits : UInt32)
  | double (bits : UInt64)
  | reference (object : ObjectRef)
  | null
  | returnAddress (offset : UInt32)
deriving DecidableEq

namespace Value

/-- Numbers of 64 bits are of category two. -/
def category : Value → Category
  | long _ | double _ => .two
  | int _ | float _ | reference _ | null | returnAddress _ => .one

/-- How many slots the value takes. -/
def slots (value : Value) : Nat :=
  value.category.slots

/-- Whether the value refers to an object or is the null reference. -/
def isReferenceOrNull : Value → Bool
  | reference _ | null => true
  | int _ | long _ | float _ | double _ | returnAddress _ => false

/-- Two values are equal when they are of one kind and stand for the same number or name. -/
def equal : Value → Value → Bool
  | float left, float right => FloatFormat.single.equal left.toNat right.toNat
  | double left, double right => FloatFormat.double.equal left.toNat right.toNat
  | left, right => left == right

/-- A value is written with the name of its kind and what it holds. -/
def text : Value → String
  | int number => "Int(" ++ toString number.toInt ++ ")"
  | long number => "Long(" ++ toString number.toInt ++ ")"
  | float bits => "Float(" ++ FloatFormat.single.text bits.toNat ++ ")"
  | double bits => "Double(" ++ FloatFormat.double.text bits.toNat ++ ")"
  | reference object => "ObjectRef(ObjectReference(" ++ toString object.index.toNat ++ "))"
  | null => "Null"
  | returnAddress offset => "ReturnAddress(" ++ toString offset.toNat ++ ")"

theorem slots_pos (value : Value) : 0 < value.slots :=
  value.category.slots_pos

theorem slots_eq_one_or_two (value : Value) : value.slots = 1 ∨ value.slots = 2 := by
  cases value <;> simp [slots, category, Category.slots]

end Value

/-- The slots that a list of values takes together. -/
def totalSlots (values : List Value) : Nat :=
  Category.sumSlots (values.map Value.category)

@[simp]
theorem totalSlots_nil : totalSlots [] = 0 := rfl

@[simp]
theorem totalSlots_cons (value : Value) (values : List Value) :
    totalSlots (value :: values) = value.slots + totalSlots values := rfl

@[simp]
theorem totalSlots_append (left right : List Value) :
    totalSlots (left ++ right) = totalSlots left + totalSlots right := by
  rw [totalSlots, List.map_append, Category.sumSlots_append, totalSlots, totalSlots]

end BytecodeMachine
