/-
This file says what a write to the local variables leaves in each slot. Apart
from the slots of the value itself a write can only make a slot unreadable, and
only one that holds a half of a value whose other half is overwritten.
-/

import BytecodeMachine.Locals
import BytecodeMachine.Proofs.Action

namespace BytecodeMachine

theorem Value.slots_eq_two_iff (value : Value) : value.slots = 2 ↔ value.category = .two := by
  unfold slots
  cases value.category <;> decide

theorem Slot.isWide_entry_iff (value : Value) : (entry value).isWide ↔ value.slots = 2 := by
  rw [isWide, beq_iff_eq, value.slots_eq_two_iff]

namespace Locals

/-! ### Single slots -/

theorem size_eq_length (locals : Locals) : locals.size = locals.slots.length := rfl

theorem slot?_eq_getElem? (locals : Locals) (index : Nat) :
    locals.slot? index = locals.slots[index]? := rfl

theorem slot?_eq_none_iff (locals : Locals) (index : Nat) :
    locals.slot? index = none ↔ locals.size ≤ index :=
  List.getElem?_eq_none_iff

theorem lt_size_of_slot? {locals : Locals} {index : Nat} {slot : Slot}
    (present : locals.slot? index = some slot) : index < locals.size :=
  (List.getElem?_eq_some_iff.mp present).1

theorem slot?_blank (size index : Nat) :
    (blank size).slot? index = if index < size then some .uninitialized else none :=
  List.getElem?_replicate

theorem get_eq_ok_iff {locals : Locals} {index : Nat} {value : Value} :
    locals.get index = .ok value ↔ locals.slot? index = some (.entry value) := by
  unfold get
  rcases locals.slot? index with _ | _ | _ | _ <;> simp

/-- Reading fails in two ways: behind the end of the table, and where no value starts. -/
theorem get_eq_error_iff {locals : Locals} {index : Nat} {fault : Fault} :
    locals.get index = .error fault ↔
      (locals.size ≤ index ∧ fault = .indexOutOfBounds) ∨
        index < locals.size ∧ (∀ value, locals.slot? index ≠ some (.entry value)) ∧
          fault = .invalidLocal index := by
  unfold get
  cases found : locals.slot? index with
  | none =>
    have beyond := (slot?_eq_none_iff locals index).mp found
    simp [beyond, Nat.not_lt_of_le beyond, eq_comm]
  | some slot =>
    have inside := lt_size_of_slot? found
    cases slot <;> simp [inside, Nat.not_le_of_lt inside, eq_comm]

/-- What is in each slot after one slot of the table has been overwritten on a condition. -/
theorem getElem?_ite_set {condition : Prop} [Decidable condition] {slots : List Slot}
    {index : Nat} (inside : condition → index < slots.length) (slot : Slot) (target : Nat) :
    (if condition then slots.set index slot else slots)[target]? =
      if target = index ∧ condition then some slot else slots[target]? := by
  by_cases holds : condition
  · rw [if_pos holds]
    by_cases here : target = index
    · subst here
      rw [if_pos ⟨rfl, holds⟩, List.getElem?_set_self (inside holds)]
    · rw [if_neg fun both => here both.1, List.getElem?_set_ne (Ne.symm here)]
  · rw [if_neg holds, if_neg fun both => holds both.2]

theorem getElem?_clearBelow (slots : List Slot) (index target : Nat) :
    (clearBelow slots index)[target]? =
      if target + 1 = index ∧ slots[target]?.any Slot.isWide then some .uninitialized
      else slots[target]? := by
  cases index with
  | zero => simp [clearBelow]
  | succ below =>
    have inside (wide : slots[below]?.any Slot.isWide) : below < slots.length := by
      obtain ⟨slot, found, -⟩ := (Option.any_eq_true _ _).mp wide
      exact (List.getElem?_eq_some_iff.mp found).1
    rw [clearBelow, getElem?_ite_set inside]
    by_cases here : target = below
    · subst here
      simp only [true_and]
    · simp only [here, Nat.add_right_cancel_iff, false_and]

/-- Clearing below an index leaves the slots from the index on as they were. -/
theorem getElem?_clearBelow_of_le (slots : List Slot) {index target : Nat}
    (behind : index ≤ target) : (clearBelow slots index)[target]? = slots[target]? := by
  have notBelow : target + 1 ≠ index := by omega
  rw [getElem?_clearBelow, if_neg fun both => notBelow both.1]

theorem getElem?_clearAbove (slots : List Slot) (index target : Nat) :
    (clearAbove slots index)[target]? =
      if target = index + 1 ∧ slots[target]? = some .upperHalf ∧ slots[index]?.any Slot.isWide then
        some .uninitialized
      else slots[target]? := by
  rw [clearAbove, getElem?_ite_set fun halves => (List.getElem?_eq_some_iff.mp halves.1).1]
  by_cases here : target = index + 1
  · rw [here]
  · simp only [here, false_and]

theorem getElem?_place {slots : List Slot} {index : Nat} {value : Value}
    (fits : index + value.slots ≤ slots.length) (target : Nat) :
    (place slots index value)[target]? =
      if target = index then some (.entry value)
      else if target = index + 1 ∧ value.slots = 2 then some .upperHalf
      else slots[target]? := by
  unfold Value.slots at fits
  unfold place Value.slots
  cases width : value.category <;> rw [width] at fits <;>
    simp only [Category.slots] at fits ⊢ <;> simp only [List.getElem?_set, List.length_set]
  · by_cases here : target = index
    · subst here
      simp [show target < slots.length by omega]
    · simp [here, Ne.symm here]
  · by_cases here : target = index
    · subst here
      simp [show target < slots.length by omega]
    · by_cases next : target = index + 1
      · subst next
        simp [show index + 1 < slots.length by omega]
      · simp [here, next, Ne.symm here, Ne.symm next]

/-! ### Writes -/

theorem attempt_set (index : Nat) (value : Value) (locals : Locals) :
    (set index value).attempt locals =
      if index + value.slots ≤ locals.size then
        (.ok (), ⟨place (clearAbove (clearBelow locals.slots index) (index + value.slots - 1))
          index value⟩)
      else (.error .indexOutOfBounds, locals) := by
  rw [Action.attempt, run_set]
  split <;> rfl

theorem length_clearBelow (slots : List Slot) (index : Nat) :
    (clearBelow slots index).length = slots.length := by
  cases index with
  | zero => rfl
  | succ below =>
    rw [clearBelow]
    split
    · exact List.length_set
    · rfl

theorem length_clearAbove (slots : List Slot) (index : Nat) :
    (clearAbove slots index).length = slots.length := by
  rw [clearAbove]
  split
  · exact List.length_set
  · rfl

theorem length_place (slots : List Slot) (index : Nat) (value : Value) :
    (place slots index value).length = slots.length := by
  unfold place
  cases value.category <;> simp

/-- No write, whether it succeeds or fails, makes the table larger or smaller. -/
theorem size_set (index : Nat) (value : Value) (locals : Locals) :
    ((set index value).attempt locals).2.size = locals.size := by
  rw [attempt_set]
  split
  · rw [size_eq_length, length_place, length_clearAbove, length_clearBelow]
    rfl
  · rfl

/-- What a write leaves in each slot: the value and its upper half; nothing readable in the slot
below if a wide value starts there, and in the slot above if a wide value that starts in the last
slot of the new one ends there; and everything else as it was. -/
theorem slot?_set {index : Nat} {value : Value} {locals : Locals}
    (fits : index + value.slots ≤ locals.size) (target : Nat) :
    ((set index value).attempt locals).2.slot? target =
      if target = index then some (.entry value)
      else if target = index + 1 ∧ value.slots = 2 then some .upperHalf
      else if target + 1 = index ∧ (locals.slot? target).any Slot.isWide then some .uninitialized
      else if target = index + value.slots ∧ locals.slot? target = some .upperHalf ∧
          (locals.slot? (index + value.slots - 1)).any Slot.isWide then
        some .uninitialized
      else locals.slot? target := by
  have width := value.slots_pos
  have room : index + value.slots ≤
      (clearAbove (clearBelow locals.slots index) (index + value.slots - 1)).length := by
    rwa [length_clearAbove, length_clearBelow]
  have behind : index ≤ index + value.slots - 1 := by omega
  have above : index + value.slots - 1 + 1 = index + value.slots := by omega
  rw [attempt_set, if_pos fits, slot?_eq_getElem?, getElem?_place room, getElem?_clearAbove,
    getElem?_clearBelow_of_le _ behind, above, getElem?_clearBelow, slot?_eq_getElem?,
    slot?_eq_getElem?]
  -- the slot below and the slot above are never the same
  by_cases below : target + 1 = index
  · have apart : target ≠ index + value.slots := by omega
    simp [below, apart]
  · simp [below]

/-- After a write a value starts where it was written, and every value that shares no slot with
it starts where it did. -/
theorem slot?_set_eq_entry_iff {start : Nat} {written : Value} {locals : Locals}
    (fits : start + written.slots ≤ locals.size) (index : Nat) (value : Value) :
    ((set start written).attempt locals).2.slot? index = some (.entry value) ↔
      (index = start ∧ value = written) ∨ locals.slot? index = some (.entry value) ∧
        (index + value.slots ≤ start ∨ start + written.slots ≤ index) := by
  have width := written.slots_eq_one_or_two
  have valueWidth := value.slots_eq_one_or_two
  rw [slot?_set fits]
  split
  · next here =>
    subst here
    have covered : ¬ (index + value.slots ≤ index ∨ index + written.slots ≤ index) := by omega
    simp only [covered, and_false, or_false, true_and, Option.some.injEq, Slot.entry.injEq,
      eq_comm]
  · next elsewhere =>
    simp only [elsewhere, false_and, false_or]
    split
    · next upper =>
      have covered : ¬ (index + value.slots ≤ start ∨ start + written.slots ≤ index) := by omega
      simp only [covered, and_false, Option.some.injEq, reduceCtorEq]
    · next notUpper =>
      split
      · next cut =>
        refine ⟨nofun, fun ⟨found, apart⟩ => ?_⟩
        have wide : value.slots = 2 := by simpa [found, Slot.isWide_entry_iff] using cut.2
        omega
      · next uncut =>
        split
        · next orphan => simp [orphan.2.1]
        · refine ⟨fun found => ⟨found, ?_⟩, And.left⟩
          have whole : ¬ (index + 1 = start ∧ value.slots = 2) := by
            simpa [found, Slot.isWide_entry_iff] using uncut
          omega

/-- In a table where every upper half stands behind a wide value, after a write one stands behind
the new value if that is wide, and everywhere else where one stood that is neither overwritten nor
cut off from its value. -/
theorem slot?_set_eq_upperHalf_iff {start : Nat} {written : Value} {locals : Locals}
    (fits : start + written.slots ≤ locals.size)
    (paired : ∀ below, locals.slot? (below + 1) = some .upperHalf →
      (locals.slot? below).any Slot.isWide)
    (index : Nat) :
    ((set start written).attempt locals).2.slot? index = some .upperHalf ↔
      (index = start + 1 ∧ written.slots = 2) ∨ locals.slot? index = some .upperHalf ∧
        (index < start ∨ start + written.slots < index) := by
  have width := written.slots_eq_one_or_two
  rw [slot?_set fits]
  split
  · next here =>
    have covered : ¬ (index < start ∨ start + written.slots < index) := by omega
    simp [covered, show index ≠ start + 1 by omega]
  · next elsewhere =>
    split
    · next upper => simp [upper]
    · next notUpper =>
      simp only [notUpper, false_or]
      split
      · next cut =>
        refine ⟨nofun, fun ⟨found, _⟩ => ?_⟩
        simp [found, Slot.isWide] at cut
      · split
        · next orphan =>
          have covered : ¬ (index < start ∨ start + written.slots < index) := by omega
          simp [covered]
        · next kept =>
          refine ⟨fun found => ⟨found, ?_⟩, And.left⟩
          have other : index ≠ start + written.slots := by
            rintro rfl
            have above : start + written.slots - 1 + 1 = start + written.slots := by omega
            exact kept ⟨rfl, found, paired _ (above ▸ found)⟩
          omega

/-- A write fails exactly when the value would pass the end of the table, and then it changes
nothing. -/
theorem attempt_set_eq_error_iff {index : Nat} {value : Value} {locals later : Locals}
    {fault : Fault} :
    (set index value).attempt locals = (.error fault, later) ↔
      locals.size < index + value.slots ∧ fault = .indexOutOfBounds ∧ later = locals := by
  rw [attempt_set]
  by_cases fits : index + value.slots ≤ locals.size
  · simp [fits, Nat.not_lt_of_le fits]
  · simp only [fits, if_false, Prod.mk.injEq, Except.error.injEq]
    constructor
    · rintro ⟨rfl, rfl⟩
      exact ⟨Nat.lt_of_not_le fits, rfl, rfl⟩
    · rintro ⟨-, rfl, rfl⟩
      exact ⟨rfl, rfl⟩

end Locals

end BytecodeMachine
