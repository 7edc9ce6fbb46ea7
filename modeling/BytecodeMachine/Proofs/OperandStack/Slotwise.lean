/-
This file shows that all shuffles of the operand stack are one operation on its
slots. A shuffle takes some slots off the top and some from below them. It can
be performed exactly when no value is cut in half at either depth and the copy
has room, and its result depends on the slots alone, not on how they are
grouped into values.

The forms of a shuffle are therefore all ways to fill its slots with values:
that every form is such a way, and that none is missing, is what has to be
checked of the forms. The rest is the same for all shuffles.
-/

import BytecodeMachine.Proofs.OperandStack.Accounting

namespace BytecodeMachine

/-! ### Slots -/

/-- What stands in one slot of an operand stack. -/
inductive StackSlot
  | whole (value : Value)
  | lowerHalf (value : Value)
  | upperHalf (value : Value)
deriving DecidableEq

/-- The slots that a value fills, from bottom to top. -/
def Value.fill (value : Value) : List StackSlot :=
  match value.category with
  | .one => [.whole value]
  | .two => [.lowerHalf value, .upperHalf value]

/-- The slots that values, top first, fill from bottom to top. -/
def flatten (values : List Value) : List StackSlot :=
  values.reverse.flatMap Value.fill

theorem Value.length_fill (value : Value) : value.fill.length = value.slots := by
  unfold fill slots
  cases value.category <;> rfl

theorem flatten_append (above below : List Value) :
    flatten (above ++ below) = flatten below ++ flatten above := by
  rw [flatten, List.reverse_append, List.flatMap_append, flatten, flatten]

theorem flatten_reverse (values : List Value) :
    flatten values.reverse = values.flatMap Value.fill := by
  rw [flatten, List.reverse_reverse]

theorem length_flatten (values : List Value) : (flatten values).length = totalSlots values := by
  induction values with
  | nil => rfl
  | cons top below inductionHypothesis =>
    have one : flatten [top] = top.fill := List.flatMap_singleton Value.fill top
    rw [← List.singleton_append, flatten_append, List.length_append, inductionHypothesis, one,
      Value.length_fill, List.singleton_append, totalSlots_cons, Nat.add_comm]

/-- A depth in slots, counted from the top, at which one value ends and another begins. -/
def IsBoundary (values : List Value) (depth : Nat) : Prop :=
  ∃ above below, values = above ++ below ∧ totalSlots above = depth

instance (values : List Value) (depth : Nat) : Decidable (IsBoundary values depth) :=
  decidable_of_iff (∃ count ≤ values.length, totalSlots (values.take count) = depth) (by
    constructor
    · rintro ⟨count, -, filled⟩
      exact ⟨values.take count, values.drop count, (List.take_append_drop count values).symm,
        filled⟩
    · rintro ⟨above, below, rfl, filled⟩
      refine ⟨above.length, ?_, ?_⟩
      · rw [List.length_append]
        exact Nat.le_add_right _ _
      · rw [List.take_left]
        exact filled)

theorem totalSlots_eq_zero_iff (values : List Value) : totalSlots values = 0 ↔ values = [] := by
  constructor
  · intro nothing
    cases values with
    | nil => rfl
    | cons top below =>
      have some := top.slots_pos
      rw [totalSlots_cons] at nothing
      omega
  · rintro rfl
    rfl

/-- Two boundaries divide the values above the deeper one into two groups. -/
theorem exists_groups_of_isBoundary {values : List Value} {upper lower : Nat}
    (first : IsBoundary values upper) (second : IsBoundary values (upper + lower)) :
    ∃ top below rest, values = top ++ (below ++ rest) ∧ totalSlots top = upper ∧
      totalSlots below = lower := by
  obtain ⟨top, behind, rfl, filled⟩ := first
  obtain ⟨both, rest, sameValues, filledBoth⟩ := second
  obtain ⟨below, rfl, rfl⟩ | ⟨more, rfl, rfl⟩ := List.append_eq_append_iff.mp sameValues
  · rw [totalSlots_append] at filledBoth
    exact ⟨top, below, rest, rfl, filled, by omega⟩
  · -- the upper boundary is no higher than the lower one only if they are the same
    rw [totalSlots_append] at filled
    have nothing : totalSlots more = 0 := by omega
    rw [totalSlots_eq_zero_iff] at nothing
    subst nothing
    refine ⟨both, [], behind, ?_, ?_, ?_⟩
    · rw [List.append_nil, List.nil_append]
    · have empty : totalSlots [] = 0 := rfl
      omega
    · have empty : totalSlots [] = 0 := rfl
      omega

/-! ### Shuffles of slots -/

namespace Shuffle

/-- How many slots the shuffle takes off the top. -/
def topSlots : Shuffle → Nat
  | pop | dup | dupX1 | dupX2 | swap => 1
  | pop2 | dup2 | dup2X1 | dup2X2 => 2

/-- How many slots below them the shuffle moves over. -/
def slotsBelow : Shuffle → Nat
  | pop | pop2 | dup | dup2 => 0
  | dupX1 | dup2X1 | swap => 1
  | dupX2 | dup2X2 => 2

/-- Whether the shuffle copies what it takes off the top. -/
def copies : Shuffle → Bool
  | pop | pop2 | swap => false
  | dup | dupX1 | dupX2 | dup2 | dup2X1 | dup2X2 => true

/-- What the shuffle makes of the two groups that it takes; all from bottom to top. -/
def rearrange {α : Type} (operation : Shuffle) (below top : List α) : List α :=
  match operation with
  | pop | pop2 => below
  | swap => top ++ below
  | dup | dupX1 | dupX2 | dup2 | dup2X1 | dup2X2 => top ++ below ++ top

theorem copiedSlots_eq (operation : Shuffle) :
    operation.copiedSlots = if operation.copies then operation.topSlots else 0 := by
  cases operation <;> rfl

theorem flatMap_rearrange {α β : Type} (operation : Shuffle) (change : α → List β)
    (below top : List α) :
    (operation.rearrange below top).flatMap change =
      operation.rearrange (below.flatMap change) (top.flatMap change) := by
  cases operation <;> simp only [rearrange, List.flatMap_append]

theorem filterMap_rearrange {α β : Type} (operation : Shuffle) (change : α → Option β)
    (below top : List α) :
    (operation.rearrange below top).filterMap change =
      operation.rearrange (below.filterMap change) (top.filterMap change) := by
  cases operation <;> simp only [rearrange, List.filterMap_append]

/-! ### The forms of a shuffle -/

/-- Every form fills the slots of both groups and arranges the groups as the shuffle does. -/
theorem exists_split_of_mem_forms (operation : Shuffle) :
    ∀ form ∈ operation.forms, ∃ count ≤ form.pattern.length,
      Category.sumSlots (form.pattern.take count) = operation.topSlots ∧
      Category.sumSlots (form.pattern.drop count) = operation.slotsBelow ∧
      form.arrangement = operation.rearrange
        (List.range' count (form.pattern.length - count)).reverse (List.range count).reverse := by
  cases operation <;> decide

theorem categories_of_slots_zero {categories : List Category}
    (filled : Category.sumSlots categories = 0) : categories = [] := by
  cases categories with
  | nil => rfl
  | cons first later =>
    have some := first.slots_pos
    rw [Category.sumSlots] at filled
    omega

theorem categories_of_slots_one {categories : List Category}
    (filled : Category.sumSlots categories = 1) : categories = [.one] := by
  cases categories with
  | nil => cases filled
  | cons first later =>
    rw [Category.sumSlots] at filled
    cases first
    · rw [categories_of_slots_zero (Nat.add_left_cancel filled)]
    · simp only [Category.slots] at filled
      omega

theorem categories_of_slots_two {categories : List Category}
    (filled : Category.sumSlots categories = 2) :
    categories = [.two] ∨ categories = [.one, .one] := by
  cases categories with
  | nil => cases filled
  | cons first later =>
    rw [Category.sumSlots] at filled
    cases first
    · rw [categories_of_slots_one (Nat.add_left_cancel filled)]
      exact Or.inr rfl
    · rw [categories_of_slots_zero (Nat.add_left_cancel filled)]
      exact Or.inl rfl

/-- No form is missing: however the slots of the two groups are filled, there is a form for it. -/
theorem exists_form_of_slots (operation : Shuffle) {top below : List Category}
    (topFilled : Category.sumSlots top = operation.topSlots)
    (belowFilled : Category.sumSlots below = operation.slotsBelow) :
    ∃ form ∈ operation.forms, form.pattern = top ++ below := by
  have tops : top = [.one] ∨ top = [.two] ∨ top = [.one, .one] := by
    cases operation
    case pop2 | dup2 | dup2X1 | dup2X2 => exact Or.inr (categories_of_slots_two topFilled)
    all_goals exact Or.inl (categories_of_slots_one topFilled)
  have belows : below = [] ∨ below = [.one] ∨ below = [.two] ∨ below = [.one, .one] := by
    cases operation
    case pop | pop2 | dup | dup2 => exact Or.inl (categories_of_slots_zero belowFilled)
    case dupX1 | dup2X1 | swap => exact Or.inr (Or.inl (categories_of_slots_one belowFilled))
    all_goals exact Or.inr (Or.inr (categories_of_slots_two belowFilled))
  revert topFilled belowFilled
  rcases tops with rfl | rfl | rfl <;> rcases belows with rfl | rfl | rfl | rfl <;>
    cases operation <;> decide

theorem filterMap_getElem?_range' {α : Type} (values : List α) (start count : Nat)
    (enough : start + count ≤ values.length) :
    (List.range' start count).filterMap (values[·]?) = (values.drop start).take count := by
  induction count generalizing start with
  | zero => rfl
  | succ count inductionHypothesis =>
    have inside : start < values.length := by omega
    have rest := inductionHypothesis (start + 1) (by omega)
    rw [List.range'_succ, List.filterMap_cons, List.getElem?_eq_getElem inside, rest,
      List.drop_eq_getElem_cons inside, List.take_succ_cons]

/-- A form that is found divides the values that it takes into the two groups, and it arranges
the groups as the shuffle does. -/
theorem exists_groups_of_form? {operation : Shuffle} {values : List Value} {form : ShuffleForm}
    (found : operation.form? values = some form) :
    ∃ top below rest, values = top ++ (below ++ rest) ∧
      totalSlots top = operation.topSlots ∧ totalSlots below = operation.slotsBelow ∧
      values.drop form.pattern.length = rest ∧
      form.arrange (values.take form.pattern.length) =
        operation.rearrange below.reverse top.reverse := by
  obtain ⟨member, fits⟩ := mem_forms_of_form? found
  obtain ⟨count, within, topFilled, belowFilled, arrangement⟩ :=
    exists_split_of_mem_forms operation form member
  have length := ShuffleForm.length_take_of_fits fits
  have categories := (form.fits_iff values).mp fits
  have parted : values = values.take form.pattern.length ++ values.drop form.pattern.length :=
    (List.take_append_drop _ _).symm
  generalize values.take form.pattern.length = taken at *
  refine ⟨taken.take count, taken.drop count, values.drop form.pattern.length, ?_, ?_, ?_, rfl, ?_⟩
  · rw [← List.append_assoc, List.take_append_drop]
    exact parted
  · rw [totalSlots, List.map_take, categories]
    exact topFilled
  · rw [totalSlots, List.map_drop, categories]
    exact belowFilled
  · rw [ShuffleForm.arrange, arrangement, filterMap_rearrange, List.filterMap_reverse,
      List.filterMap_reverse, filterMap_getElem?_range' taken count _ (by omega),
      List.range_eq_range', filterMap_getElem?_range' taken 0 count (by omega), List.drop_zero,
      List.take_of_length_le (by rw [List.length_drop]; omega)]

/-- A form is found exactly when both depths are boundaries. -/
theorem exists_form?_iff (operation : Shuffle) (values : List Value) :
    (∃ form, operation.form? values = some form) ↔ IsBoundary values operation.topSlots ∧
      IsBoundary values (operation.topSlots + operation.slotsBelow) := by
  constructor
  · rintro ⟨form, found⟩
    obtain ⟨top, below, rest, rfl, topFilled, belowFilled, -⟩ := exists_groups_of_form? found
    refine ⟨⟨top, below ++ rest, rfl, topFilled⟩, top ++ below, rest, ?_, ?_⟩
    · rw [List.append_assoc]
    · rw [totalSlots_append, topFilled, belowFilled]
  · rintro ⟨upper, lower⟩
    obtain ⟨top, below, rest, rfl, topFilled, belowFilled⟩ :=
      exists_groups_of_isBoundary upper lower
    rw [totalSlots] at topFilled belowFilled
    obtain ⟨form, member, pattern⟩ := exists_form_of_slots operation topFilled belowFilled
    refine Option.isSome_iff_exists.mp (List.find?_isSome.mpr ⟨form, member, ?_⟩)
    have length : form.pattern.length = (top ++ below).length := by
      rw [pattern, List.length_append, List.length_append, List.length_map, List.length_map]
    rw [ShuffleForm.fits_iff, length, ← List.append_assoc, List.take_left, List.map_append,
      pattern]

end Shuffle

/-! ### Reachable stacks -/

namespace OperandStack

/-- A stack that comes about from an empty one by its operations, in any order and whether they
succeed or fail. -/
inductive Reachable : OperandStack → Prop
  | empty (capacity : Nat) : Reachable (empty capacity)
  | pop {stack : OperandStack} (before : Reachable stack) : Reachable (pop.attempt stack).2
  | push {stack : OperandStack} (before : Reachable stack) (value : Value) :
      Reachable ((push value).attempt stack).2
  | shuffle {stack : OperandStack} (before : Reachable stack) (operation : Shuffle) :
      Reachable ((shuffle operation).attempt stack).2

theorem Reachable.wellFormed {stack : OperandStack} (reachable : stack.Reachable) :
    stack.WellFormed := by
  induction reachable with
  | empty capacity => exact wellFormed_empty capacity
  | pop before inductionHypothesis => exact keeps_pop _ inductionHypothesis
  | push before value inductionHypothesis => exact keeps_push value _ inductionHypothesis
  | shuffle before operation inductionHypothesis =>
    exact keeps_shuffle operation _ inductionHypothesis

/-! ### The law of shuffles -/

/-- A shuffle succeeds exactly when its form is found and there is room for what it copies. -/
theorem exists_shuffle_iff {stack : OperandStack} (wellFormed : stack.WellFormed)
    (operation : Shuffle) :
    (∃ later, (shuffle operation).attempt stack = (.ok (), later)) ↔
      (∃ form, operation.form? stack.values = some form) ∧
        (operation.copies → stack.used + operation.topSlots ≤ stack.capacity) := by
  have fits := wellFormed.used_le
  rw [attempt_shuffle wellFormed]
  cases found : operation.form? stack.values with
  | none => simp
  | some form =>
    have growth := operation.growth_of_mem_forms form (Shuffle.mem_forms_of_form? found).1
    rw [Shuffle.copiedSlots_eq] at growth
    simp only [growth]
    cases operation.copies with
    | false => simp [fits]
    | true => by_cases room : stack.used + operation.topSlots ≤ stack.capacity <;> simp [room]

/-- A shuffle that succeeds rearranges two groups of values and nothing else. -/
theorem exists_groups_of_shuffle {stack later : OperandStack} (wellFormed : stack.WellFormed)
    {operation : Shuffle} (success : (shuffle operation).attempt stack = (.ok (), later)) :
    ∃ top below rest, stack.values = top ++ (below ++ rest) ∧
      totalSlots top = operation.topSlots ∧ totalSlots below = operation.slotsBelow ∧
      later.values = (operation.rearrange below.reverse top.reverse).reverse ++ rest := by
  rw [attempt_shuffle wellFormed] at success
  cases found : operation.form? stack.values with
  | none =>
    rw [found] at success
    cases success
  | some form =>
    simp only [found] at success
    split at success <;> cases success
    obtain ⟨top, below, rest, values, topFilled, belowFilled, rfl, arranged⟩ :=
      Shuffle.exists_groups_of_form? found
    exact ⟨top, below, _, values, topFilled, belowFilled, by rw [arranged]⟩

/-- Every shuffle of a reachable stack is one operation on its slots. It succeeds exactly when
its two depths are boundaries between values and there is room for what it copies. Then the
slots below both groups stay, those of the two groups are rearranged in the same way for all
values, and the values of the groups stay whole. -/
theorem shuffle_slotwise {stack : OperandStack} (reachable : stack.Reachable)
    (operation : Shuffle) :
    ((∃ later, (shuffle operation).attempt stack = (.ok (), later)) ↔
      (IsBoundary stack.values operation.topSlots ∧
        IsBoundary stack.values (operation.topSlots + operation.slotsBelow)) ∧
      (operation.copies → stack.used + operation.topSlots ≤ stack.capacity)) ∧
    ∀ later, (shuffle operation).attempt stack = (.ok (), later) →
      (∀ rest below top, flatten stack.values = rest ++ below ++ top →
        below.length = operation.slotsBelow → top.length = operation.topSlots →
        flatten later.values = rest ++ operation.rearrange below top) ∧
      ∃ top below rest, stack.values = top ++ (below ++ rest) ∧
        totalSlots top = operation.topSlots ∧ totalSlots below = operation.slotsBelow ∧
        later.values = (operation.rearrange below.reverse top.reverse).reverse ++ rest := by
  have wellFormed := reachable.wellFormed
  refine ⟨?_, fun later success => ?_⟩
  · rw [exists_shuffle_iff wellFormed, Shuffle.exists_form?_iff]
  · obtain ⟨top, below, rest, values, topFilled, belowFilled, result⟩ :=
      exists_groups_of_shuffle wellFormed success
    refine ⟨fun restSlots belowSlots topSlots flat belowLength topLength => ?_,
      top, below, rest, values, topFilled, belowFilled, result⟩
    rw [values, flatten_append, flatten_append] at flat
    rw [← length_flatten] at topFilled belowFilled
    obtain ⟨front, rfl⟩ := List.append_inj' flat (topFilled.trans topLength.symm)
    obtain ⟨rfl, rfl⟩ := List.append_inj' front (belowFilled.trans belowLength.symm)
    rw [result, flatten_append, flatten_reverse, Shuffle.flatMap_rearrange]
    rfl

/-- An integer over a long number in four slots, of which one is free. -/
def intOverLong : OperandStack :=
  ((push (.int 7)).attempt ((push (.long 5)).attempt (empty 4)).2).2

theorem shuffle_intOverLong :
    intOverLong.Reachable ∧
    (∃ later, (shuffle .dupX2).attempt intOverLong = (.ok (), later)) ∧
    (¬ ∃ later, (shuffle .swap).attempt intOverLong = (.ok (), later)) ∧
    ∀ later, (shuffle .dupX2).attempt intOverLong = (.ok (), later) →
      flatten later.values =
        [.whole (.int 7), .lowerHalf (.long 5), .upperHalf (.long 5), .whole (.int 7)] := by
  have reachable : intOverLong.Reachable := ((Reachable.empty 4).push (.long 5)).push (.int 7)
  obtain ⟨succeeds, result⟩ := shuffle_slotwise reachable .dupX2
  have refused := (shuffle_slotwise reachable .swap).1
  refine ⟨reachable, succeeds.mpr (by decide), fun swapped => ?_, fun later success => ?_⟩
  · exact absurd (refused.mp swapped) (by decide)
  · exact (result later success).1 [] [.lowerHalf (.long 5), .upperHalf (.long 5)]
      [.whole (.int 7)] rfl rfl rfl

end OperandStack

end BytecodeMachine
