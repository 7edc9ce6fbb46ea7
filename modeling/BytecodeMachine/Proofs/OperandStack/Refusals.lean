/-
This file tells apart the reasons for which a shuffle of the operand stack is
refused. Main statement: too few values are reported as an empty stack, values
that fit no form as an inconsistency that names their categories, and a form
without room for its copies as an overflow. Each of these is reported only then,
and the stack stays as it is.

What a shuffle needs at least is its shortest form. So a stack that has enough
values may still be too short for the one form that its top could begin; that is
an inconsistency and not a lack of values.
-/

import BytecodeMachine.Proofs.OperandStack.Slotwise

namespace BytecodeMachine

theorem ShuffleForm.fits_iff_isPrefix (form : ShuffleForm) (values : List Value) :
    form.fits values ↔ form.pattern <+: values.map Value.category := by
  rw [fits_iff, List.prefix_iff_eq_take, List.map_take, eq_comm]

theorem Fault.message_noMatchingForm (operation : Shuffle) (top : List Category) :
    (noMatchingForm operation top).message = "InternalInconsistency " ++ (operation.mnemonic ++
      ": no form matches top of stack categories " ++ bracketed (top.map Category.text)) :=
  rfl

namespace Shuffle

/-! ### What a shuffle accepts -/

/-- The categories, top first, of the values that the shuffle accepts on top of the stack. -/
def acceptedTops : Shuffle → List (List Category)
  | pop | dup => [[.one]]
  | pop2 | dup2 => [[.two], [.one, .one]]
  | dupX1 | swap => [[.one, .one]]
  | dupX2 => [[.one, .two], [.one, .one, .one]]
  | dup2X1 => [[.two, .one], [.one, .one, .one]]
  | dup2X2 => [[.two, .two], [.one, .one, .two], [.two, .one, .one], [.one, .one, .one, .one]]

/-- The number of values that the shuffle needs at least, whatever their categories are. -/
def leastValues : Shuffle → Nat
  | pop | pop2 | dup | dup2 => 1
  | dupX1 | dupX2 | dup2X1 | dup2X2 | swap => 2

/-- The values on top of a stack have categories that the shuffle accepts. -/
def Accepts (operation : Shuffle) (values : List Value) : Prop :=
  ∃ top ∈ operation.acceptedTops, top <+: values.map Value.category

theorem map_pattern_forms (operation : Shuffle) :
    operation.forms.map ShuffleForm.pattern = operation.acceptedTops := by
  cases operation <;> rfl

theorem fewestValues_eq (operation : Shuffle) : operation.fewestValues = operation.leastValues := by
  cases operation <;> rfl

theorem leastValues_le_length (operation : Shuffle) :
    ∀ top ∈ operation.acceptedTops, operation.leastValues ≤ top.length := by
  cases operation <;> decide

/-- A shuffle finds a form exactly for what it accepts. -/
theorem exists_form?_iff_accepts (operation : Shuffle) (values : List Value) :
    (∃ form, operation.form? values = some form) ↔ operation.Accepts values := by
  rw [Accepts, ← map_pattern_forms, form?, ← Option.isSome_iff_exists, List.find?_isSome]
  simp only [ShuffleForm.fits_iff_isPrefix, List.mem_map]
  constructor
  · rintro ⟨form, member, fits⟩
    exact ⟨form.pattern, ⟨form, member, rfl⟩, fits⟩
  · rintro ⟨_, ⟨form, member, rfl⟩, fits⟩
    exact ⟨form, member, fits⟩

theorem Accepts.leastValues_le {operation : Shuffle} {values : List Value}
    (accepted : operation.Accepts values) : operation.leastValues ≤ values.length := by
  obtain ⟨top, member, fits⟩ := accepted
  calc operation.leastValues
      ≤ top.length := operation.leastValues_le_length top member
    _ ≤ (values.map Value.category).length := fits.length_le
    _ = values.length := List.length_map _

end Shuffle

namespace OperandStack

/-! ### The outcomes of a shuffle -/

section Outcomes

variable {stack : OperandStack} (wellFormed : stack.WellFormed) {operation : Shuffle}

include wellFormed

theorem attempt_shuffle_of_refused (refused : ¬ operation.Accepts stack.values) :
    (shuffle operation).attempt stack = (.error (operation.mismatch stack.values), stack) := by
  have none : operation.form? stack.values = none :=
    Option.eq_none_iff_forall_ne_some.mpr fun form found =>
      refused ((operation.exists_form?_iff_accepts stack.values).mp ⟨form, found⟩)
  rw [attempt_shuffle wellFormed, none]

/-- A stack without the values that the shuffle needs at least is reported as empty. -/
theorem attempt_shuffle_of_few (few : stack.values.length < operation.leastValues) :
    (shuffle operation).attempt stack = (.error .emptyStack, stack) := by
  have refused : ¬ operation.Accepts stack.values := fun accepted =>
    Nat.not_lt_of_le accepted.leastValues_le few
  rw [attempt_shuffle_of_refused wellFormed refused, Shuffle.mismatch,
    operation.fewestValues_eq, if_pos few]

/-- Enough values that are not accepted are reported by their categories. -/
theorem attempt_shuffle_of_mismatch (enough : operation.leastValues ≤ stack.values.length)
    (refused : ¬ operation.Accepts stack.values) :
    (shuffle operation).attempt stack =
      (.error (.noMatchingForm operation ((stack.values.take 4).map Value.category)), stack) := by
  rw [attempt_shuffle_of_refused wellFormed refused, Shuffle.mismatch,
    operation.fewestValues_eq, if_neg (Nat.not_lt_of_le enough)]

theorem attempt_shuffle_of_accepts (accepted : operation.Accepts stack.values) :
    ∃ later, (shuffle operation).attempt stack =
      if stack.used + operation.copiedSlots ≤ stack.capacity then (.ok (), later)
      else (.error .stackOverflow, stack) := by
  obtain ⟨form, found⟩ := (operation.exists_form?_iff_accepts stack.values).mpr accepted
  have growth := operation.growth_of_mem_forms form (Shuffle.mem_forms_of_form? found).1
  rw [attempt_shuffle wellFormed, found, ← growth]
  exact ⟨_, rfl⟩

end Outcomes

/-- A shuffle of a reachable stack is refused for one of three reasons. The stack is reported as
empty exactly when it has fewer values than the shuffle needs at least. An inconsistency, whose
text names the shuffle and the categories of the topmost values, is reported exactly when there
are enough values but they are not accepted, and an overflow exactly when they are accepted but
there is no room for the copies. A stack on which a shuffle is refused stays as it is. -/
theorem shuffle_refused_iff {stack : OperandStack} (reachable : stack.Reachable)
    (operation : Shuffle) :
    let result := ((shuffle operation).attempt stack).1
    (result = .error .emptyStack ↔ stack.values.length < operation.leastValues) ∧
    ((∃ fault, result = .error fault ∧ fault.kind = .internalInconsistency) ↔
      operation.leastValues ≤ stack.values.length ∧ ¬ operation.Accepts stack.values) ∧
    (∀ fault, result = .error fault → fault.kind = .internalInconsistency →
      fault.message = "InternalInconsistency " ++ (operation.mnemonic ++
        ": no form matches top of stack categories " ++
        bracketed ((stack.values.take 4).map fun value => value.category.text))) ∧
    (result = .error .stackOverflow ↔ operation.Accepts stack.values ∧
      stack.capacity < stack.used + operation.copiedSlots) ∧
    ∀ fault later, (shuffle operation).attempt stack = (.error fault, later) → later = stack := by
  have wellFormed := reachable.wellFormed
  by_cases accepted : operation.Accepts stack.values
  · have enough := Nat.not_lt_of_le accepted.leastValues_le
    obtain ⟨later, outcome⟩ := attempt_shuffle_of_accepts wellFormed accepted
    rw [outcome]
    by_cases room : stack.used + operation.copiedSlots ≤ stack.capacity
    · simp [accepted, enough, room]
    · simp [accepted, enough, room, Nat.lt_of_not_le room, Fault.kind]
  · rcases Nat.lt_or_ge stack.values.length operation.leastValues with few | enough
    · rw [attempt_shuffle_of_few wellFormed few]
      simp [accepted, few, Nat.not_le_of_lt few, Fault.kind]
    · rw [attempt_shuffle_of_mismatch wellFormed enough accepted]
      refine ⟨?_, ?_, ?_, ?_, ?_⟩
      · simp [Nat.not_lt_of_le enough]
      · simp [accepted, enough, Fault.kind]
      · rintro _ ⟨⟩ -
        rw [Fault.message_noMatchingForm, List.map_map]
        rfl
      · simp [accepted]
      · rintro _ _ ⟨⟩
        rfl

/-- A single value of category one in a single slot. -/
def single : OperandStack :=
  ((push (.int 7)).attempt (empty 1)).2

/-- It is too little for `swap`; for `pop2` it is one value as it needs at least, but `pop2` accepts
it only on top of another one; and `dup` has no room for its copy. -/
theorem shuffle_single_refused :
    single.Reachable ∧
    ((shuffle .swap).attempt single).1 = .error .emptyStack ∧
    ((shuffle .dup).attempt single).1 = .error .stackOverflow ∧
    ∃ fault, (shuffle .pop2).attempt single = (.error fault, single) ∧
      fault.message =
        "InternalInconsistency pop2: no form matches top of stack categories [One]" := by
  have reachable : single.Reachable := (Reachable.empty 1).push (.int 7)
  have swap := shuffle_refused_iff reachable .swap
  have dup := shuffle_refused_iff reachable .dup
  obtain ⟨-, inconsistent, named, -, unchanged⟩ := shuffle_refused_iff reachable .pop2
  have refused : ¬ Shuffle.Accepts .pop2 single.values := by
    rintro ⟨top, member, fits⟩
    revert fits
    revert top
    decide
  obtain ⟨fault, failed, kind⟩ := inconsistent.mpr ⟨by decide, refused⟩
  have failing : (shuffle .pop2).attempt single = (.error fault, _) := Prod.ext failed rfl
  refine ⟨reachable, swap.1.mpr (by decide), dup.2.2.2.1.mpr ⟨?_, by decide⟩, fault, ?_, ?_⟩
  · exact ⟨[.one], List.mem_singleton_self _, by decide⟩
  · rw [failing, unchanged fault _ failing]
  · exact (named fault failed kind).trans rfl

end OperandStack

end BytecodeMachine
