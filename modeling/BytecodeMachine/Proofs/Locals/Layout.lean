/-
This file shows that a table of local variables is a map of disjoint intervals.
A layout says which values start where; a write puts a value into it and takes
out every value with which it shares a slot. Main statement: after the
arguments of a method and any writes, failing ones included, reading the table
gives exactly what the layout after the same writes says.

The table keeps no intervals. It keeps them up by the marks in its slots, and a
write looks at three slots only: the one below the value, the last one that the
value takes and the one above. These suffice because a mark of an upper half
stands nowhere but behind a wide value that the layout still has.
-/

import Mathlib.Data.Finset.Insert
import Mathlib.Data.Finset.Filter
import BytecodeMachine.Proofs.Locals.Writing

namespace BytecodeMachine

/-! ### Layouts -/

/-- A value together with the index of the slot in which it starts. -/
structure Placement where
  start : Nat
  value : Value
deriving DecidableEq

namespace Placement

/-- The index behind the last slot of the value. -/
def stop (placed : Placement) : Nat :=
  placed.start + placed.value.slots

/-- The value takes the slot at an index. -/
def Covers (placed : Placement) (index : Nat) : Prop :=
  placed.start ≤ index ∧ index < placed.stop

/-- The two values share a slot. -/
def Overlaps (one other : Placement) : Prop :=
  ∃ index, one.Covers index ∧ other.Covers index

theorem start_lt_stop (placed : Placement) : placed.start < placed.stop :=
  Nat.lt_add_of_pos_right placed.value.slots_pos

/-- A value takes the slot in which it starts and, if it is wide, the one above. -/
theorem covers_iff (placed : Placement) (index : Nat) :
    placed.Covers index ↔
      index = placed.start ∨ placed.value.slots = 2 ∧ placed.start + 1 = index := by
  have width := placed.value.slots_eq_one_or_two
  unfold Covers stop
  omega

theorem overlaps_iff (one other : Placement) :
    one.Overlaps other ↔ one.start < other.stop ∧ other.start < one.stop := by
  have first := one.start_lt_stop
  have second := other.start_lt_stop
  constructor
  · rintro ⟨index, ⟨oneFrom, oneTo⟩, otherFrom, otherTo⟩
    exact ⟨Nat.lt_of_le_of_lt oneFrom otherTo, Nat.lt_of_le_of_lt otherFrom oneTo⟩
  · rintro ⟨before, after⟩
    refine ⟨max one.start other.start, ?_, ?_⟩
    · exact ⟨Nat.le_max_left _ _, Nat.max_lt.mpr ⟨first, after⟩⟩
    · exact ⟨Nat.le_max_right _ _, Nat.max_lt.mpr ⟨before, second⟩⟩

theorem Overlaps.symm {one other : Placement} (shared : one.Overlaps other) :
    other.Overlaps one := by
  obtain ⟨index, first, second⟩ := shared
  exact ⟨index, second, first⟩

instance (one other : Placement) : Decidable (one.Overlaps other) :=
  decidable_of_iff _ (overlaps_iff one other).symm

end Placement

/-- Which values a table of a size holds: all of them lie inside, and no two share a slot. -/
structure Layout (size : Nat) where
  placements : Finset Placement
  stop_le : ∀ placed ∈ placements, placed.stop ≤ size
  eq_of_overlaps : ∀ one ∈ placements, ∀ other ∈ placements, one.Overlaps other → one = other

namespace Layout

variable {size : Nat}

/-- The layout of a table without values. -/
def empty (size : Nat) : Layout size where
  placements := ∅
  stop_le := by simp
  eq_of_overlaps := by simp

/-- Puts in a value that lies inside the table; all that share a slot with it are taken out. -/
def write (layout : Layout size) (written : Placement) : Layout size :=
  if inside : written.stop ≤ size then
    { placements := insert written (layout.placements.filter fun other => ¬ other.Overlaps written)
      stop_le := by
        simp only [Finset.forall_mem_insert, Finset.mem_filter]
        exact ⟨inside, fun other kept => layout.stop_le other kept.1⟩
      eq_of_overlaps := by
        intro one oneIn other otherIn shared
        rw [Finset.mem_insert, Finset.mem_filter] at oneIn otherIn
        obtain rfl | ⟨onePresent, oneApart⟩ := oneIn
        · obtain rfl | ⟨-, otherApart⟩ := otherIn
          · rfl
          · exact absurd shared.symm otherApart
        · obtain rfl | ⟨otherPresent, -⟩ := otherIn
          · exact absurd shared oneApart
          · exact layout.eq_of_overlaps one onePresent other otherPresent shared }
  else layout

/-- Puts in values one after the other. -/
def writeAll (layout : Layout size) (writes : List Placement) : Layout size :=
  writes.foldl write layout

theorem writeAll_append (layout : Layout size) (first later : List Placement) :
    layout.writeAll (first ++ later) = (layout.writeAll first).writeAll later :=
  List.foldl_append

theorem mem_write {layout : Layout size} {written : Placement} (inside : written.stop ≤ size)
    (placed : Placement) :
    placed ∈ (layout.write written).placements ↔
      placed = written ∨ placed ∈ layout.placements ∧ ¬ placed.Overlaps written := by
  rw [write, dif_pos inside, Finset.mem_insert, Finset.mem_filter]

theorem write_of_not_inside (layout : Layout size) {written : Placement}
    (outside : ¬ written.stop ≤ size) : layout.write written = layout :=
  dif_neg outside

end Layout

namespace Locals

/-- Writes values to the table one after the other, going on behind every failure. -/
def setAll (locals : Locals) (writes : List Placement) : Locals :=
  writes.foldl (fun table written => ((set written.start written.value).attempt table).2) locals

/-- Where the arguments of a method stand, from an index on. -/
def argumentsFrom : Nat → List Value → List Placement
  | _, [] => []
  | index, value :: later => ⟨index, value⟩ :: argumentsFrom (index + value.slots) later

theorem eq_setAll_of_lay {index : Nat} {arguments : List Value} {locals later : Locals}
    (laid : (lay index arguments).attempt locals = (.ok (), later)) :
    later = locals.setAll (argumentsFrom index arguments) := by
  induction arguments generalizing index locals with
  | nil =>
    cases laid
    rfl
  | cons value arguments inductionHypothesis =>
    obtain ⟨_, next, first, rest⟩ := Action.attempt_bind_eq_ok laid
    have written : ((set index value).attempt locals).2 = next := congrArg Prod.snd first
    rw [inductionHypothesis rest, ← written]
    rfl

theorem lay_of_create {σ : Type} {state after : σ} {maxLocals : Nat} {arguments : List Value}
    {locals : Locals}
    (created : (create maxLocals arguments).attempt state = (.ok locals, after)) :
    (lay 0 arguments).attempt (blank maxLocals) = (.ok (), locals) := by
  rw [create, Action.attempt_build, Prod.mk.injEq] at created
  obtain ⟨_, laid, rfl⟩ := Except.exists_of_map_eq_ok created.1
  exact Prod.ext laid rfl

/-- A new table holds the arguments that it was made with. -/
theorem eq_setAll_of_create {σ : Type} {state after : σ} {maxLocals : Nat}
    {arguments : List Value} {locals : Locals}
    (created : (create maxLocals arguments).attempt state = (.ok locals, after)) :
    locals = (blank maxLocals).setAll (argumentsFrom 0 arguments) :=
  eq_setAll_of_lay (lay_of_create created)

/-- Values that are laid behind all others of a table take none of them away: afterwards the values
of the table are these and those from before. -/
theorem slot?_eq_entry_iff_of_lay {index : Nat} {arguments : List Value} {locals later : Locals}
    (laid : (lay index arguments).attempt locals = (.ok (), later))
    (behind : ∀ start value, locals.slot? start = some (.entry value) →
      start + value.slots ≤ index) (target : Nat) (value : Value) :
    later.slot? target = some (.entry value) ↔
      locals.slot? target = some (.entry value) ∨
        ⟨target, value⟩ ∈ argumentsFrom index arguments := by
  induction arguments generalizing index locals with
  | nil =>
    obtain rfl : locals = later := congrArg Prod.snd laid
    simp only [argumentsFrom, List.not_mem_nil, or_false]
  | cons first arguments inductionHypothesis =>
    obtain ⟨_, next, written, rest⟩ := Action.attempt_bind_eq_ok laid
    by_cases fits : index + first.slots ≤ locals.size
    · obtain rfl : ((set index first).attempt locals).2 = next := congrArg Prod.snd written
      have entries := slot?_set_eq_entry_iff fits
      have stillBehind : ∀ start other,
          ((set index first).attempt locals).2.slot? start = some (.entry other) →
            start + other.slots ≤ index + first.slots := by
        intro start other here
        obtain ⟨rfl, rfl⟩ | ⟨before, -⟩ := (entries start other).mp here
        · exact Nat.le_refl _
        · exact Nat.le_add_right_of_le (behind start other before)
      rw [inductionHypothesis rest stillBehind, entries, argumentsFrom, List.mem_cons,
        Placement.mk.injEq, and_iff_left_of_imp fun before => Or.inl (behind target value before),
        or_assoc, or_left_comm]
    · rw [attempt_set, if_neg fits] at written
      cases written

/-- A new table holds the arguments that it was made with and nothing else. -/
theorem slot?_eq_entry_iff_of_create {σ : Type} {state after : σ} {maxLocals : Nat}
    {arguments : List Value} {locals : Locals}
    (created : (create maxLocals arguments).attempt state = (.ok locals, after)) (index : Nat)
    (value : Value) :
    locals.slot? index = some (.entry value) ↔ ⟨index, value⟩ ∈ argumentsFrom 0 arguments := by
  have noEntry (start : Nat) (other : Value) :
      (blank maxLocals).slot? start ≠ some (.entry other) := by
    rw [slot?_blank]
    split <;> exact nofun
  rw [slot?_eq_entry_iff_of_lay (lay_of_create created)
    fun start other found => absurd found (noEntry start other)]
  exact or_iff_right (noEntry index value)

/-! ### Tables that keep up a layout -/

/-- The marks in the slots of a table are those of a layout. -/
structure KeepsUp (locals : Locals) {size : Nat} (layout : Layout size) : Prop where
  size_eq : locals.size = size
  entry_iff (index : Nat) (value : Value) :
    locals.slot? index = some (.entry value) ↔ ⟨index, value⟩ ∈ layout.placements
  upperHalf_iff (index : Nat) : locals.slot? index = some .upperHalf ↔
    ∃ placed ∈ layout.placements, placed.value.category = .two ∧ placed.start + 1 = index

theorem keepsUp_blank (size : Nat) : (blank size).KeepsUp (Layout.empty size) := by
  refine ⟨List.length_replicate, fun index value => ?_, fun index => ?_⟩
  · rw [slot?_blank]
    split <;> simp [Layout.empty]
  · rw [slot?_blank]
    split <;> simp [Layout.empty]

namespace KeepsUp

variable {locals : Locals} {size : Nat} {layout : Layout size}

/-- An upper half stands behind a wide value. -/
theorem isWide_of_upperHalf (keepsUp : locals.KeepsUp layout) {below : Nat}
    (upper : locals.slot? (below + 1) = some .upperHalf) :
    (locals.slot? below).any Slot.isWide := by
  obtain ⟨⟨start, value⟩, present, wide, place⟩ := (keepsUp.upperHalf_iff _).mp upper
  obtain rfl : start = below := Nat.succ.inj place
  rw [(keepsUp.entry_iff start value).mpr present]
  exact (Slot.isWide_entry_iff value).mpr (value.slots_eq_two_iff.mpr wide)

/-- A write keeps table and layout together, also one that fails. -/
theorem set (keepsUp : locals.KeepsUp layout) (written : Placement) :
    ((Locals.set written.start written.value).attempt locals).2.KeepsUp
      (layout.write written) := by
  by_cases inside : written.stop ≤ size
  · have fits : written.start + written.value.slots ≤ locals.size := keepsUp.size_eq ▸ inside
    refine ⟨(size_set _ _ _).trans keepsUp.size_eq, fun index value => ?_, fun index => ?_⟩
    · have apart : ¬ Placement.Overlaps ⟨index, value⟩ written ↔
          index + value.slots ≤ written.start ∨ written.stop ≤ index := by
        simp only [Placement.overlaps_iff, Placement.stop]
        omega
      rw [slot?_set_eq_entry_iff fits, Layout.mem_write inside, keepsUp.entry_iff, apart,
        ← Placement.mk.injEq]
      rfl
    · have apart (placed : Placement) (wide : placed.value.slots = 2) :
          ¬ placed.Overlaps written ↔
            placed.start + 1 < written.start ∨ written.stop < placed.start + 1 := by
        simp only [Placement.overlaps_iff, Placement.stop]
        omega
      rw [slot?_set_eq_upperHalf_iff fits fun _ => keepsUp.isWide_of_upperHalf,
        keepsUp.upperHalf_iff]
      simp only [Layout.mem_write inside, ← Value.slots_eq_two_iff]
      constructor
      · rintro (⟨rfl, wide⟩ | ⟨⟨placed, present, wide, rfl⟩, away⟩)
        · exact ⟨written, Or.inl rfl, wide, rfl⟩
        · exact ⟨placed, Or.inr ⟨present, (apart placed wide).mpr away⟩, wide, rfl⟩
      · rintro ⟨placed, rfl | ⟨present, away⟩, wide, rfl⟩
        · exact Or.inl ⟨rfl, wide⟩
        · exact Or.inr ⟨⟨placed, present, wide, rfl⟩, (apart placed wide).mp away⟩
  · have full : ¬ written.start + written.value.slots ≤ locals.size := keepsUp.size_eq ▸ inside
    rw [attempt_set, if_neg full, layout.write_of_not_inside inside]
    exact keepsUp

theorem setAll (keepsUp : locals.KeepsUp layout) (writes : List Placement) :
    (locals.setAll writes).KeepsUp (layout.writeAll writes) := by
  induction writes generalizing locals layout with
  | nil => exact keepsUp
  | cons written later inductionHypothesis => exact inductionHypothesis (keepsUp.set written)

/-- Nothing readable is in a slot exactly when no value takes it. -/
theorem uninitialized_iff (keepsUp : locals.KeepsUp layout) (index : Nat) :
    locals.slot? index = some .uninitialized ↔
      index < size ∧ ∀ placed ∈ layout.placements, ¬ placed.Covers index := by
  simp only [Placement.covers_iff, Value.slots_eq_two_iff]
  constructor
  · intro blank
    refine ⟨keepsUp.size_eq ▸ lt_size_of_slot? blank, ?_⟩
    rintro placed present (rfl | upper)
    · cases blank.symm.trans ((keepsUp.entry_iff _ _).mpr present)
    · cases blank.symm.trans ((keepsUp.upperHalf_iff index).mpr ⟨placed, present, upper⟩)
  · rintro ⟨inside, free⟩
    cases found : locals.slot? index with
    | none =>
      have beyond := (slot?_eq_none_iff locals index).mp found
      rw [keepsUp.size_eq] at beyond
      exact absurd inside (Nat.not_lt_of_le beyond)
    | some slot =>
      cases slot with
      | entry value =>
        exact absurd (Or.inl rfl) (free ⟨index, value⟩ ((keepsUp.entry_iff index value).mp found))
      | upperHalf =>
        obtain ⟨placed, present, upper⟩ := (keepsUp.upperHalf_iff index).mp found
        exact absurd (Or.inr upper) (free placed present)
      | uninitialized => rfl

end KeepsUp

/-! ### Tables in order -/

/-- A table is in order when it keeps up a layout. -/
def InOrder (locals : Locals) : Prop :=
  ∃ (size : Nat) (layout : Layout size), locals.KeepsUp layout

theorem inOrder_of_create {σ : Type} {state after : σ} {maxLocals : Nat} {arguments : List Value}
    {locals : Locals}
    (created : (create maxLocals arguments).attempt state = (.ok locals, after)) :
    locals.InOrder := by
  rw [eq_setAll_of_create created]
  exact ⟨_, _, (keepsUp_blank maxLocals).setAll _⟩

theorem keeps_inOrder_set (index : Nat) (value : Value) : (set index value).Keeps InOrder :=
  fun _ ⟨_, _, keepsUp⟩ => ⟨_, _, keepsUp.set ⟨index, value⟩⟩

/-- The table with another value in one slot and every other slot as it was. -/
def replace (locals : Locals) (index : Nat) (value : Value) : Locals :=
  ⟨locals.slots.set index (.entry value)⟩

theorem ext_slot? {left right : Locals}
    (same : ∀ index, left.slot? index = right.slot? index) : left = right :=
  congrArg Locals.mk (List.ext_getElem? same)

theorem slot?_replace {locals : Locals} {index : Nat} (inside : index < locals.size)
    (value : Value) (target : Nat) :
    (locals.replace index value).slot? target =
      if target = index then some (.entry value) else locals.slot? target := by
  rw [slot?_eq_getElem?, replace]
  split
  · next here =>
    subst here
    exact List.getElem?_set_self inside
  · next elsewhere => exact List.getElem?_set_ne (Ne.symm elsewhere)

theorem replace_self {locals : Locals} {index : Nat} {value : Value}
    (found : locals.slot? index = some (.entry value)) : locals.replace index value = locals := by
  refine ext_slot? fun target => ?_
  rw [slot?_replace (lt_size_of_slot? found)]
  split
  · next here => rw [here, found]
  · rfl

theorem replace_replace (locals : Locals) (index : Nat) (first second : Value) :
    (locals.replace index first).replace index second = locals.replace index second :=
  congrArg Locals.mk (List.set_set _)

/-- In a table in order the slots around a value belong to it or to no value that it would cut:
the slot below starts no wide value, an upper half follows exactly if the value is wide. -/
theorem KeepsUp.around_entry {locals : Locals} {size : Nat} {layout : Layout size}
    (keepsUp : locals.KeepsUp layout) {index : Nat} {value : Value}
    (found : locals.slot? index = some (.entry value)) :
    (∀ below, below + 1 = index → ¬ (locals.slot? below).any Slot.isWide) ∧
      (value.slots = 2 → locals.slot? (index + 1) = some .upperHalf) ∧
      locals.slot? (index + value.slots) ≠ some .upperHalf := by
  have present := (keepsUp.entry_iff index value).mp found
  have width := value.slots_eq_one_or_two
  refine ⟨fun below next wide => ?_, fun wide => ?_, fun upper => ?_⟩
  · obtain ⟨slot, here, startsWide⟩ := (Option.any_eq_true _ _).mp wide
    cases slot with
    | upperHalf | uninitialized => cases startsWide
    | entry other =>
      have otherWidth := (Slot.isWide_entry_iff other).mp startsWide
      have shared : Placement.Overlaps ⟨below, other⟩ ⟨index, value⟩ := by
        simp only [Placement.overlaps_iff, Placement.stop]
        omega
      cases layout.eq_of_overlaps _ ((keepsUp.entry_iff below other).mp here) _ present shared
      exact Nat.succ_ne_self _ next
  · exact (keepsUp.upperHalf_iff _).mpr ⟨_, present, value.slots_eq_two_iff.mp wide, rfl⟩
  · obtain ⟨placed, other, wide, place⟩ := (keepsUp.upperHalf_iff _).mp upper
    have otherWidth := placed.value.slots_eq_two_iff.mpr wide
    have shared : placed.Overlaps ⟨index, value⟩ := by
      simp only [Placement.overlaps_iff, Placement.stop]
      omega
    cases layout.eq_of_overlaps _ other _ present shared
    simp only at place otherWidth
    omega

/-- A write over a value of the same width changes no other slot. -/
theorem InOrder.attempt_set {locals : Locals} (inOrder : locals.InOrder) {index : Nat}
    {old new : Value} (found : locals.slot? index = some (.entry old))
    (sameWidth : new.slots = old.slots) :
    (set index new).attempt locals = (.ok (), locals.replace index new) := by
  obtain ⟨size, layout, keepsUp⟩ := inOrder
  obtain ⟨below, upper, above⟩ := keepsUp.around_entry found
  have fits : index + new.slots ≤ locals.size := by
    rw [sameWidth, keepsUp.size_eq]
    exact layout.stop_le _ ((keepsUp.entry_iff index old).mp found)
  have written : ((set index new).attempt locals).1 = .ok () := by
    rw [Locals.attempt_set, if_pos fits]
  refine Prod.ext written (ext_slot? fun target => ?_)
  rw [slot?_set fits, slot?_replace (lt_size_of_slot? found)]
  split
  · rfl
  · split
    · next half =>
      rw [half.1]
      exact (upper (sameWidth ▸ half.2)).symm
    · rw [if_neg fun cut => below target cut.1 cut.2]
      refine if_neg fun orphan => above ?_
      rw [← sameWidth, ← orphan.1]
      exact orphan.2.1

theorem InOrder.replace {locals : Locals} (inOrder : locals.InOrder) {index : Nat} {old new : Value}
    (found : locals.slot? index = some (.entry old)) (sameWidth : new.slots = old.slots) :
    (locals.replace index new).InOrder := by
  have kept := keeps_inOrder_set index new locals inOrder
  rwa [inOrder.attempt_set found sameWidth] at kept

/-! ### Reading a table by its layout -/

/-- Reading a table, slot by slot or value by value, and writing to it give what a layout says. -/
structure AgreesWith (locals : Locals) {size : Nat} (layout : Layout size) : Prop where
  get_eq_ok_iff (index : Nat) (value : Value) :
    locals.get index = .ok value ↔ ⟨index, value⟩ ∈ layout.placements
  get_eq_indexOutOfBounds_iff (index : Nat) :
    locals.get index = .error .indexOutOfBounds ↔ size ≤ index
  get_otherwise (index : Nat) : index < size → (∀ value, ⟨index, value⟩ ∉ layout.placements) →
    locals.get index = .error (.invalidLocal index)
  slot?_eq_none_iff (index : Nat) : locals.slot? index = none ↔ size ≤ index
  upperHalf_iff (index : Nat) : locals.slot? index = some .upperHalf ↔
    ∃ placed ∈ layout.placements, placed.value.category = .two ∧ placed.start + 1 = index
  uninitialized_iff (index : Nat) : locals.slot? index = some .uninitialized ↔
    index < size ∧ ∀ placed ∈ layout.placements, ¬ placed.Covers index
  set_fails_iff (index : Nat) (value : Value) (fault : Fault) (later : Locals) :
    (set index value).attempt locals = (.error fault, later) ↔
      size < index + value.slots ∧ fault = .indexOutOfBounds ∧ later = locals

theorem KeepsUp.agreesWith {locals : Locals} {size : Nat} {layout : Layout size}
    (keepsUp : locals.KeepsUp layout) : locals.AgreesWith layout := by
  have sameSize := keepsUp.size_eq
  constructor
  case get_eq_ok_iff =>
    intro index value
    rw [get_eq_ok_iff, keepsUp.entry_iff]
  case get_eq_indexOutOfBounds_iff =>
    intro index
    rw [get_eq_error_iff, sameSize]
    simp
  case get_otherwise =>
    intro index inside free
    have noEntry (value : Value) : locals.slot? index ≠ some (.entry value) :=
      mt (keepsUp.entry_iff index value).mp (free value)
    exact get_eq_error_iff.mpr (Or.inr ⟨sameSize ▸ inside, noEntry, rfl⟩)
  case slot?_eq_none_iff =>
    intro index
    rw [slot?_eq_none_iff, sameSize]
  case upperHalf_iff => exact keepsUp.upperHalf_iff
  case uninitialized_iff => exact keepsUp.uninitialized_iff
  case set_fails_iff =>
    intro index value fault later
    rw [attempt_set_eq_error_iff, sameSize]

/-- A table of local variables refines a map of disjoint intervals: after the arguments with which
it was made and any writes, failing ones included, it agrees with the layout after the same
writes. -/
theorem refines_layout {σ : Type} {state after : σ} {maxLocals : Nat} {arguments : List Value}
    {locals : Locals}
    (created : (create maxLocals arguments).attempt state = (.ok locals, after))
    (writes : List Placement) :
    (locals.setAll writes).AgreesWith
      ((Layout.empty maxLocals).writeAll (argumentsFrom 0 arguments ++ writes)) := by
  have laidOut := (keepsUp_blank maxLocals).setAll (argumentsFrom 0 arguments)
  rw [← eq_setAll_of_create created] at laidOut
  rw [Layout.writeAll_append]
  exact (laidOut.setAll writes).agreesWith

/-- A table of six slots with an int and, behind it, a long. -/
def intAndLong : Locals :=
  ⟨[.entry (.int 1), .entry (.long 2), .upperHalf, .uninitialized, .uninitialized,
    .uninitialized]⟩

/-- A write into the upper half of the long, and one that would pass the end of the table. -/
def cutAndOverrun : List Placement :=
  [⟨2, .int 5⟩, ⟨5, .double 0⟩]

theorem refines_layout_cut :
    (create 6 [.int 1, .long 2]).attempt () = (.ok intAndLong, ()) ∧
    (intAndLong.setAll cutAndOverrun).AgreesWith
      ((Layout.empty 6).writeAll (argumentsFrom 0 [.int 1, .long 2] ++ cutAndOverrun)) ∧
    (intAndLong.setAll cutAndOverrun).get 1 = .error (.invalidLocal 1) := by
  have created : (create 6 [.int 1, .long 2]).attempt () = (.ok intAndLong, ()) := rfl
  have agrees := refines_layout created cutAndOverrun
  refine ⟨created, agrees, agrees.get_otherwise 1 (by decide) fun value => ?_⟩
  have placements : ((Layout.empty 6).writeAll
      (argumentsFrom 0 [.int 1, .long 2] ++ cutAndOverrun)).placements =
        {⟨0, .int 1⟩, ⟨2, .int 5⟩} := by decide
  simp [placements]

end Locals

end BytecodeMachine
