/-
This file shows where the arguments of a method stand in a new table of local
variables. Main statement: a table can be made exactly when it has as many
slots as the arguments take together, and then it is the one table in which
each argument stands behind the slots of those before it, with its upper half
if it has one, and nothing stands behind the last.

The arguments are written one after the other, and a write may take away what
stands around it. That none of them takes away another is known from the layout
that the table keeps up, so only the slots are counted here.
-/

import BytecodeMachine.Proofs.Locals.Layout

namespace BytecodeMachine

namespace Locals

variable {σ : Type} {state after : σ} {maxLocals : Nat} {arguments : List Value} {locals : Locals}

/-! ### Where the arguments stand -/

/-- An argument stands behind the slots of the arguments before it. -/
theorem mem_argumentsFrom_iff {index : Nat} {placed : Placement} :
    placed ∈ argumentsFrom index arguments ↔ ∃ place, arguments[place]? = some placed.value ∧
      placed.start = index + totalSlots (arguments.take place) := by
  induction arguments generalizing index with
  | nil => simp [argumentsFrom]
  | cons first later inductionHypothesis =>
    rw [argumentsFrom, List.mem_cons, inductionHypothesis]
    constructor
    · rintro (rfl | ⟨place, found, start⟩)
      · exact ⟨0, rfl, rfl⟩
      · refine ⟨place + 1, found, ?_⟩
        rw [start, List.take_succ_cons, totalSlots_cons, Nat.add_assoc]
    · rintro ⟨_ | place, found, start⟩
      · cases Option.some.inj found
        exact Or.inl (congrArg (Placement.mk · placed.value) start)
      · refine Or.inr ⟨place, found, ?_⟩
        rw [start, List.take_succ_cons, totalSlots_cons, Nat.add_assoc]

/-- The arguments take the slots from the first to the last without a gap. -/
theorem exists_covers_iff {index target : Nat} :
    (∃ placed ∈ argumentsFrom index arguments, placed.Covers target) ↔
      index ≤ target ∧ target < index + totalSlots arguments := by
  induction arguments generalizing index with
  | nil => simp [argumentsFrom]
  | cons first later inductionHypothesis =>
    rw [argumentsFrom, List.exists_mem_cons_iff, inductionHypothesis, totalSlots_cons]
    unfold Placement.Covers Placement.stop
    dsimp only
    omega

/-! ### When there is room for them -/

/-- Values are laid without a fault exactly when the table has slots for all of them. -/
theorem answer_lay {index : Nat} (inside : index ≤ locals.size) :
    ((lay index arguments).attempt locals).1 =
      if index + totalSlots arguments ≤ locals.size then .ok () else .error .indexOutOfBounds := by
  induction arguments generalizing index locals with
  | nil =>
    rw [totalSlots_nil, Nat.add_zero, if_pos inside]
    rfl
  | cons value later inductionHypothesis =>
    rw [totalSlots_cons, ← Nat.add_assoc, lay, Action.attempt_bind]
    have sameSize := size_set index value locals
    by_cases fits : index + value.slots ≤ locals.size
    · rw [attempt_set, if_pos fits] at sameSize ⊢
      rw [inductionHypothesis (sameSize ▸ fits), sameSize]
    · have tooMany : ¬ index + value.slots + totalSlots later ≤ locals.size :=
        fun enough => fits (Nat.le_of_add_right_le enough)
      rw [attempt_set, if_neg fits, if_neg tooMany]

theorem answer_lay_blank (maxLocals : Nat) (arguments : List Value) :
    ((lay 0 arguments).attempt (blank maxLocals)).1 =
      if totalSlots arguments ≤ maxLocals then .ok () else .error .indexOutOfBounds := by
  rw [answer_lay (Nat.zero_le _), (keepsUp_blank maxLocals).size_eq, Nat.zero_add]

/-- Where there is room, a table is made. -/
theorem exists_create (state : σ) (enough : totalSlots arguments ≤ maxLocals) :
    ∃ locals, (create maxLocals arguments).attempt state = (.ok locals, state) := by
  rw [create, Action.attempt_build, answer_lay_blank, if_pos enough]
  exact ⟨_, rfl⟩

theorem attempt_create_of_full (state : σ) (full : maxLocals < totalSlots arguments) :
    (create maxLocals arguments).attempt state = (.error .indexOutOfBounds, state) := by
  rw [create, Action.attempt_build, answer_lay_blank, if_neg (Nat.not_le_of_lt full)]
  rfl

/-! ### The table that is made -/

/-- A new table keeps up the layout in which the arguments stand one behind the other. -/
theorem exists_keepsUp_of_create
    (created : (create maxLocals arguments).attempt state = (.ok locals, after)) :
    ∃ layout : Layout maxLocals, locals.KeepsUp layout ∧
      ∀ placed, placed ∈ layout.placements ↔ placed ∈ argumentsFrom 0 arguments := by
  have keepsUp := (keepsUp_blank maxLocals).setAll (argumentsFrom 0 arguments)
  rw [← eq_setAll_of_create created] at keepsUp
  exact ⟨_, keepsUp, fun placed => (keepsUp.entry_iff placed.start placed.value).symm.trans
    (slot?_eq_entry_iff_of_create created placed.start placed.value)⟩

/-- A table of a size holds the arguments of a method one behind the other in its first slots, and
nothing in the others. -/
structure HoldsArguments (locals : Locals) (size : Nat) (arguments : List Value) : Prop where
  size_eq : locals.size = size
  entry (place : Nat) (value : Value) : arguments[place]? = some value →
    locals.slot? (totalSlots (arguments.take place)) = some (.entry value)
  upperHalf (place : Nat) (value : Value) : arguments[place]? = some value →
    value.category = .two →
      locals.slot? (totalSlots (arguments.take place) + 1) = some .upperHalf
  uninitialized (index : Nat) : totalSlots arguments ≤ index → index < size →
    locals.slot? index = some .uninitialized

theorem holdsArguments_of_create
    (created : (create maxLocals arguments).attempt state = (.ok locals, after)) :
    locals.HoldsArguments maxLocals arguments := by
  obtain ⟨layout, keepsUp, placements⟩ := exists_keepsUp_of_create created
  have present {place : Nat} {value : Value} (found : arguments[place]? = some value) :
      ⟨totalSlots (arguments.take place), value⟩ ∈ layout.placements :=
    (placements _).mpr (mem_argumentsFrom_iff.mpr ⟨place, found, (Nat.zero_add _).symm⟩)
  constructor
  case size_eq => exact keepsUp.size_eq
  case entry =>
    intro place value found
    exact (keepsUp.entry_iff _ value).mpr (present found)
  case upperHalf =>
    intro place value found wide
    exact (keepsUp.upperHalf_iff _).mpr ⟨_, present found, wide, rfl⟩
  case uninitialized =>
    intro index behind inside
    refine (keepsUp.uninitialized_iff index).mpr ⟨inside, fun placed here covers => ?_⟩
    obtain ⟨-, before⟩ := exists_covers_iff.mp ⟨placed, (placements placed).mp here, covers⟩
    rw [Nat.zero_add] at before
    exact Nat.not_lt_of_le behind before

/-- There is only one table that holds certain arguments. -/
theorem HoldsArguments.unique {size : Nat} {other : Locals}
    (one : locals.HoldsArguments size arguments) (two : other.HoldsArguments size arguments) :
    locals = other := by
  refine ext_slot? fun index => ?_
  rcases Nat.lt_or_ge index size with inside | beyond
  · rcases Nat.lt_or_ge index (totalSlots arguments) with before | behind
    · -- Below the last argument each slot is the first of an argument or the second of a wide one.
      have among : 0 ≤ index ∧ index < 0 + totalSlots arguments := by omega
      obtain ⟨placed, present, covers⟩ := exists_covers_iff.mpr among
      obtain ⟨place, found, start⟩ := mem_argumentsFrom_iff.mp present
      rw [Nat.zero_add] at start
      obtain rfl | ⟨wide, rfl⟩ := (placed.covers_iff index).mp covers
      · rw [start, one.entry place _ found, two.entry place _ found]
      · have category := placed.value.slots_eq_two_iff.mp wide
        rw [start, one.upperHalf place _ found category, two.upperHalf place _ found category]
    · rw [one.uninitialized index behind inside, two.uninitialized index behind inside]
  · rw [(slot?_eq_none_iff locals index).mpr (one.size_eq ▸ beyond),
      (slot?_eq_none_iff other index).mpr (two.size_eq ▸ beyond)]

/-- A table for the arguments of a method can be made exactly when it has as many slots as they
take together; otherwise the index that is out of its bounds is reported. The table that is made is
the one in which each argument stands behind the slots of those before it, the upper half of each
wide one behind it, and nothing behind the last. -/
theorem arguments_laid_out {σ : Type} (maxLocals : Nat) (arguments : List Value) (state : σ) :
    ((∃ locals, (create maxLocals arguments).attempt state = (.ok locals, state)) ↔
      totalSlots arguments ≤ maxLocals) ∧
    (∀ fault after, (create maxLocals arguments).attempt state = (.error fault, after) ↔
      maxLocals < totalSlots arguments ∧ fault = .indexOutOfBounds ∧ after = state) ∧
    ∀ locals after, (create maxLocals arguments).attempt state = (.ok locals, after) ↔
      totalSlots arguments ≤ maxLocals ∧ locals.HoldsArguments maxLocals arguments ∧
        after = state := by
  rcases Nat.lt_or_ge maxLocals (totalSlots arguments) with full | enough
  · have failed := attempt_create_of_full state full
    refine ⟨?_, fun fault after => ⟨fun outcome => ?_, ?_⟩, fun locals after => ?_⟩
    · simp [failed, Nat.not_le_of_lt full]
    · cases failed.symm.trans outcome
      exact ⟨full, rfl, rfl⟩
    · rintro ⟨-, rfl, rfl⟩
      exact failed
    · simp [failed, Nat.not_le_of_lt full]
  · obtain ⟨made, created⟩ := exists_create state enough
    have holds := holdsArguments_of_create created
    refine ⟨iff_of_true ⟨made, created⟩ enough, fun fault after => ?_, fun locals after =>
      ⟨fun outcome => ?_, ?_⟩⟩
    · simp [created, Nat.not_lt_of_le enough]
    · cases created.symm.trans outcome
      exact ⟨enough, holds, rfl⟩
    · rintro ⟨-, others, rfl⟩
      rw [created, holds.unique others]

/-- A table that the arguments do not fill. -/
example : (create 5 [.int 1, .long 2, .int 3]).attempt () =
    (.ok ⟨[.entry (.int 1), .entry (.long 2), .upperHalf, .entry (.int 3), .uninitialized]⟩,
      ()) := rfl

end Locals

end BytecodeMachine
