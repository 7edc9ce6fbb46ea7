/-
This file accounts for the slots of an operand stack. A stack is well formed
when the slots counted as used are those that its values take, and there are no
more of them than the stack has. Every operation keeps that, so once a shuffle
has found its form and its room, none of its pops and pushes fails.
-/

import BytecodeMachine.OperandStack.Form
import BytecodeMachine.Proofs.Action

namespace BytecodeMachine

theorem totalSlots_reverse (values : List Value) :
    totalSlots values.reverse = totalSlots values := by
  induction values with
  | nil => rfl
  | cons top below inductionHypothesis =>
    rw [List.reverse_cons, totalSlots_append, inductionHypothesis, totalSlots_cons, Nat.add_comm]
    rfl

theorem totalSlots_take_add_drop (values : List Value) (count : Nat) :
    totalSlots (values.take count) + totalSlots (values.drop count) = totalSlots values := by
  rw [← totalSlots_append, List.take_append_drop]

namespace OperandStack

/-- The slots in use are those that the values take, and the stack has them. -/
structure WellFormed (stack : OperandStack) : Prop where
  used_eq : stack.used = totalSlots stack.values
  used_le : stack.used ≤ stack.capacity

theorem wellFormed_empty (capacity : Nat) : (empty capacity).WellFormed :=
  ⟨rfl, Nat.zero_le capacity⟩

/-! ### Single values -/

theorem attempt_pop (stack : OperandStack) :
    pop.attempt stack =
      match stack.values with
      | [] => (.error .emptyStack, stack)
      | top :: below => (.ok top, ⟨below, stack.used - top.slots, stack.capacity⟩) := by
  obtain ⟨_ | ⟨top, below⟩, used, capacity⟩ := stack
  · rw [Action.attempt_of_run (run_pop_nil used capacity)]
  · rw [Action.attempt_of_run (run_pop_cons top below used capacity)]

theorem attempt_reserve (slots : Nat) (stack : OperandStack) :
    (reserve slots).attempt stack =
      if stack.used + slots ≤ stack.capacity then (.ok (), stack)
      else (.error .stackOverflow, stack) := by
  rw [Action.attempt, run_reserve]
  split <;> rfl

theorem attempt_push (value : Value) (stack : OperandStack) :
    (push value).attempt stack =
      if stack.used + value.slots ≤ stack.capacity then
        (.ok (), ⟨value :: stack.values, stack.used + value.slots, stack.capacity⟩)
      else (.error .stackOverflow, stack) := by
  rw [Action.attempt, run_push]
  split <;> rfl

theorem keeps_pop : pop.Keeps WellFormed := by
  intro stack wellFormed
  obtain ⟨_ | ⟨top, below⟩, used, capacity⟩ := stack
  · exact wellFormed
  · have counted : used = top.slots + totalSlots below := wellFormed.used_eq
    have fits : used ≤ capacity := wellFormed.used_le
    rw [attempt_pop]
    constructor
    · show used - top.slots = totalSlots below
      omega
    · show used - top.slots ≤ capacity
      omega

theorem keeps_push (value : Value) : (push value).Keeps WellFormed := by
  intro stack wellFormed
  rw [attempt_push]
  split
  · next room =>
    refine ⟨?_, room⟩
    show stack.used + value.slots = value.slots + totalSlots stack.values
    rw [wellFormed.used_eq, Nat.add_comm]
  · exact wellFormed

/-- What was taken off a stack can be put back. -/
theorem attempt_push_of_pop {stack popped : OperandStack} {top : Value}
    (wellFormed : stack.WellFormed) (taken : pop.attempt stack = (.ok top, popped)) :
    (push top).attempt popped = (.ok (), stack) := by
  obtain ⟨_ | ⟨value, below⟩, used, capacity⟩ := stack <;> rw [attempt_pop] at taken <;> cases taken
  have counted : used = top.slots + totalSlots below := wellFormed.used_eq
  have fits : used ≤ capacity := wellFormed.used_le
  have restored : used - top.slots + top.slots = used := by omega
  rw [attempt_push, if_pos (show used - top.slots + top.slots ≤ capacity by omega), restored]

/-- A pop takes away the top value, if there is one, and the slots that it used. -/
theorem stack_of_pop {stack : OperandStack} (wellFormed : stack.WellFormed) :
    (pop.attempt stack).2 = ⟨stack.values.tail, totalSlots stack.values.tail, stack.capacity⟩ := by
  obtain ⟨_ | ⟨value, below⟩, used, capacity⟩ := stack
  · rw [attempt_pop, List.tail_nil, show used = 0 from wellFormed.used_eq]
    rfl
  · have counted : used = value.slots + totalSlots below := wellFormed.used_eq
    rw [attempt_pop]
    show (⟨below, used - value.slots, capacity⟩ : OperandStack) =
      ⟨below, totalSlots below, capacity⟩
    rw [counted, Nat.add_sub_cancel_left]

/-! ### Several values -/

theorem attempt_popMany (taken below : List Value) (used capacity : Nat) :
    (popMany taken.length).attempt ⟨taken ++ below, used, capacity⟩ =
      (.ok taken, ⟨below, used - totalSlots taken, capacity⟩) := by
  induction taken generalizing used with
  | nil => rfl
  | cons top later inductionHypothesis =>
    have first : pop.attempt ⟨top :: later ++ below, used, capacity⟩ =
        (.ok top, ⟨later ++ below, used - top.slots, capacity⟩) := attempt_pop _
    rw [List.length_cons, popMany, Action.attempt_bind_of_ok _ first,
      Action.attempt_bind_of_ok _ (inductionHypothesis _), Action.attempt_pure, totalSlots_cons,
      Nat.sub_sub]

theorem attempt_pushAll (values : List Value) (stack : OperandStack)
    (room : stack.used + totalSlots values ≤ stack.capacity) :
    (pushAll values).attempt stack =
      (.ok (), ⟨values.reverse ++ stack.values, stack.used + totalSlots values,
        stack.capacity⟩) := by
  induction values generalizing stack with
  | nil => rfl
  | cons value later inductionHypothesis =>
    rw [totalSlots_cons, ← Nat.add_assoc] at room
    have first : (push value).attempt stack =
        (.ok (), ⟨value :: stack.values, stack.used + value.slots, stack.capacity⟩) := by
      rw [attempt_push, if_pos (Nat.le_of_add_right_le room)]
    rw [pushAll, Action.attempt_bind_of_ok _ first, inductionHypothesis _ room, totalSlots_cons,
      ← Nat.add_assoc, List.reverse_cons, List.append_assoc, List.singleton_append]

end OperandStack

/-! ### Shuffles -/

namespace ShuffleForm

/-- A form arranges the categories of values as it arranges the values. -/
theorem arrange_map {α β : Type} (form : ShuffleForm) (change : α → β) (taken : List α) :
    form.arrange (taken.map change) = (form.arrange taken).map change := by
  simp only [arrange, List.map_filterMap, List.getElem?_map]

theorem fits_iff (form : ShuffleForm) (values : List Value) :
    form.fits values ↔ (values.take form.pattern.length).map Value.category = form.pattern :=
  beq_iff_eq

theorem length_take_of_fits {form : ShuffleForm} {values : List Value} (fits : form.fits values) :
    (values.take form.pattern.length).length = form.pattern.length := by
  have categories := congrArg List.length ((form.fits_iff values).mp fits)
  rwa [List.length_map] at categories

/-- The result of a form that fits takes no more slots than were in use and the growth. -/
theorem totalSlots_arrange_le {form : ShuffleForm} {values : List Value} (fits : form.fits values) :
    totalSlots (form.arrange (values.take form.pattern.length)) ≤
      totalSlots (values.take form.pattern.length) + form.growth := by
  rw [totalSlots, totalSlots, ← arrange_map,
    (form.fits_iff values).mp fits, growth]
  omega

end ShuffleForm

theorem Shuffle.mem_forms_of_form? {operation : Shuffle} {values : List Value} {form : ShuffleForm}
    (found : operation.form? values = some form) : form ∈ operation.forms ∧ form.fits values :=
  ⟨List.mem_of_find?_eq_some found, by simpa using List.find?_some found⟩

namespace OperandStack

/-- A shuffle fails without a form and without room for its growth, and then leaves the stack
alone. Otherwise it puts the arrangement of the values taken in their place. -/
theorem attempt_shuffle {stack : OperandStack} (wellFormed : stack.WellFormed)
    (operation : Shuffle) :
    (shuffle operation).attempt stack =
      match operation.form? stack.values with
      | none => (.error (operation.mismatch stack.values), stack)
      | some form =>
        if stack.used + form.growth ≤ stack.capacity then
          let values := (form.arrange (stack.values.take form.pattern.length)).reverse ++
            stack.values.drop form.pattern.length
          (.ok (), ⟨values, totalSlots values, stack.capacity⟩)
        else (.error .stackOverflow, stack) := by
  rw [shuffle, Action.attempt_bind_of_ok _ (Action.attempt_get stack)]
  cases found : operation.form? stack.values with
  | none => rfl
  | some form =>
    obtain ⟨-, fits⟩ := Shuffle.mem_forms_of_form? found
    by_cases room : stack.used + form.growth ≤ stack.capacity
    · have reserved : (reserve form.growth).attempt stack = (.ok (), stack) := by
        rw [attempt_reserve, if_pos room]
      have split := totalSlots_take_add_drop stack.values form.pattern.length
      rw [← wellFormed.used_eq] at split
      have popped := attempt_popMany (stack.values.take form.pattern.length)
        (stack.values.drop form.pattern.length) stack.used stack.capacity
      rw [List.take_append_drop, ShuffleForm.length_take_of_fits fits] at popped
      have arranged := ShuffleForm.totalSlots_arrange_le fits
      simp only [if_pos room]
      rw [Action.attempt_bind_of_ok _ reserved, Action.attempt_bind_of_ok _ popped,
        attempt_pushAll _ _ (by dsimp only; omega)]
      dsimp only
      rw [totalSlots_append, totalSlots_reverse, ← split, Nat.add_sub_cancel_left, Nat.add_comm]
    · have refused : (reserve form.growth).attempt stack = (.error .stackOverflow, stack) := by
        rw [attempt_reserve, if_neg room]
      simp only [if_neg room]
      rw [Action.attempt_bind_of_error _ refused]

theorem keeps_shuffle (operation : Shuffle) : (shuffle operation).Keeps WellFormed := by
  intro stack wellFormed
  rw [attempt_shuffle wellFormed]
  cases found : operation.form? stack.values with
  | none => exact wellFormed
  | some form =>
    obtain ⟨-, fits⟩ := Shuffle.mem_forms_of_form? found
    have arranged := ShuffleForm.totalSlots_arrange_le fits
    have split := totalSlots_take_add_drop stack.values form.pattern.length
    rw [← wellFormed.used_eq] at split
    by_cases room : stack.used + form.growth ≤ stack.capacity
    · simp only [if_pos room]
      refine ⟨rfl, ?_⟩
      show totalSlots (_ ++ _) ≤ stack.capacity
      rw [totalSlots_append, totalSlots_reverse]
      omega
    · simp only [if_neg room]
      exact wellFormed

end OperandStack

end BytecodeMachine
