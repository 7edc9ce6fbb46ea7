/-
This file says what the loads and the stores do. Which values fit a kind of
local variable is told value by value, and the reasons to fail are listed in the
order in which they count. Main statement: a load or a store, in its short form,
with an index of one byte or behind a wide prefix, succeeds under exactly the
conditions listed, fails for exactly the reasons listed, and leaves the frame
described here; the heap has no part in it.
-/

import BytecodeMachine.Proofs.Frame.Complete
import BytecodeMachine.Proofs.Frame.Reachable
import BytecodeMachine.Proofs.Locals.Writing

namespace BytecodeMachine

/-- The stack without its top value, if it has one. -/
def OperandStack.withoutTop (stack : OperandStack) : OperandStack :=
  ⟨stack.values.tail, totalSlots stack.values.tail, stack.capacity⟩

namespace LocalKind

/-! ### Values that fit a kind -/

/-- The values that a load of a kind may read. -/
inductive FitsLoad : LocalKind → Value → Prop
  | int (number : Int32) : FitsLoad .int (.int number)
  | long (number : Int64) : FitsLoad .long (.long number)
  | float (bits : UInt32) : FitsLoad .float (.float bits)
  | double (bits : UInt64) : FitsLoad .double (.double bits)
  | reference (object : ObjectRef) : FitsLoad .reference (.reference object)
  | null : FitsLoad .reference .null

/-- The values that a store of a kind may write. -/
inductive FitsStore : LocalKind → Value → Prop
  | loadable {kind : LocalKind} {value : Value} (fits : kind.FitsLoad value) : FitsStore kind value
  | returnAddress (offset : UInt32) : FitsStore .reference (.returnAddress offset)

theorem loads_iff (kind : LocalKind) (value : Value) : kind.loads value ↔ kind.FitsLoad value := by
  constructor
  · intro loads
    cases kind <;> cases value <;> cases loads <;> constructor
  · rintro (_ | _ | _ | _ | _ | _) <;> rfl

theorem stores_iff (kind : LocalKind) (value : Value) :
    kind.stores value ↔ kind.FitsStore value := by
  constructor
  · intro stores
    cases kind <;> cases value <;> cases stores
    case reference.returnAddress.refl => exact .returnAddress _
    all_goals exact .loadable (by constructor)
  · rintro (⟨_ | _ | _ | _ | _ | _⟩ | _) <;> rfl

/-! ### Loads -/

section Loads

variable (kind : LocalKind) (locals : Locals) (stack : OperandStack) (index : Nat)

/-- The value at an index can be loaded: it fits the kind, and there is room for it. -/
structure Loadable (value : Value) : Prop where
  found : locals.slot? index = some (.entry value)
  fits : kind.FitsLoad value
  room : stack.used + value.slots ≤ stack.capacity

/-- Why a load fails. Each reason supposes that none of those before it applies. -/
inductive LoadFails : Fault → Prop
  | outside (beyond : locals.size ≤ index) : LoadFails .indexOutOfBounds
  | unreadable (inside : index < locals.size)
      (nothing : ∀ value, locals.slot? index ≠ some (.entry value)) :
      LoadFails (.invalidLocal index)
  | mistyped {value : Value} (found : locals.slot? index = some (.entry value))
      (unfit : ¬ kind.FitsLoad value) : LoadFails .typeMismatch
  | noRoom {value : Value} (found : locals.slot? index = some (.entry value))
      (fits : kind.FitsLoad value) (full : stack.capacity < stack.used + value.slots) :
      LoadFails .stackOverflow

/-- A load succeeds or has a reason to fail. -/
theorem load_cases :
    (∃ value, kind.Loadable locals stack index value) ∨
      ∃ fault, kind.LoadFails locals stack index fault := by
  by_cases present : ∃ value, locals.slot? index = some (.entry value)
  · obtain ⟨value, found⟩ := present
    by_cases fits : kind.FitsLoad value
    · rcases Nat.lt_or_ge stack.capacity (stack.used + value.slots) with full | room
      · exact Or.inr ⟨_, .noRoom found fits full⟩
      · exact Or.inl ⟨value, found, fits, room⟩
    · exact Or.inr ⟨_, .mistyped found fits⟩
  · rcases Nat.lt_or_ge index locals.size with inside | beyond
    · exact Or.inr ⟨_, .unreadable inside (not_exists.mp present)⟩
    · exact Or.inr ⟨_, .outside beyond⟩

end Loads

/-! ### Stores -/

section Stores

variable (kind : LocalKind) (locals : Locals) (stack : OperandStack) (index : Nat)

/-- The value on top of the stack can be stored at an index: it fits the kind, and its slots lie
inside the table. -/
structure Storable (top : Value) : Prop where
  onTop : stack.values.head? = some top
  fits : kind.FitsStore top
  inside : index + top.slots ≤ locals.size

/-- Why a store fails. Each reason supposes that none of those before it applies. -/
inductive StoreFails : Fault → Prop
  | empty (none : stack.values = []) : StoreFails .emptyStack
  | mistyped {top : Value} (onTop : stack.values.head? = some top)
      (unfit : ¬ kind.FitsStore top) : StoreFails .typeMismatch
  | outside {top : Value} (onTop : stack.values.head? = some top) (fits : kind.FitsStore top)
      (beyond : locals.size < index + top.slots) : StoreFails .indexOutOfBounds

/-- A store succeeds or has a reason to fail. -/
theorem store_cases :
    (∃ top, kind.Storable locals stack index top) ∨
      ∃ fault, kind.StoreFails locals stack index fault := by
  cases onTop : stack.values.head? with
  | none => exact Or.inr ⟨_, .empty (List.head?_eq_none_iff.mp onTop)⟩
  | some top =>
    by_cases fits : kind.FitsStore top
    · rcases Nat.lt_or_ge locals.size (index + top.slots) with beyond | inside
      · exact Or.inr ⟨_, .outside onTop fits beyond⟩
      · exact Or.inl ⟨top, onTop, fits, inside⟩
    · exact Or.inr ⟨_, .mistyped onTop fits⟩

end Stores

end LocalKind

namespace OperandStack

variable {stack : OperandStack}

theorem attempt_pop_of_head? (wellFormed : stack.WellFormed) {top : Value}
    (onTop : stack.values.head? = some top) : pop.attempt stack = (.ok top, stack.withoutTop) := by
  refine Prod.ext ?_ (stack_of_pop wellFormed)
  obtain ⟨below, values⟩ := List.head?_eq_some_iff.mp onTop
  rw [attempt_pop, values]

theorem attempt_pop_of_nil (wellFormed : stack.WellFormed) (none : stack.values = []) :
    pop.attempt stack = (.error .emptyStack, stack.withoutTop) := by
  refine Prod.ext ?_ (stack_of_pop wellFormed)
  rw [attempt_pop, none]

end OperandStack

namespace Frame

variable {frame : Frame} {kind : LocalKind} {index : Nat} {fault : Fault}

/-! ### Performing loads and stores -/

theorem attempt_push (value : Value) (frame : Frame) :
    (push value).attempt frame =
      if frame.stack.used + value.slots ≤ frame.stack.capacity then
        (.ok (), { frame with
          stack := ⟨value :: frame.stack.values, frame.stack.used + value.slots,
            frame.stack.capacity⟩ })
      else (.error .stackOverflow, frame) := by
  rw [push, onStack, Action.attempt_zoom, OperandStack.attempt_push]
  split <;> rfl

theorem attempt_load (kind : LocalKind) (index : Nat) (frame : Frame) :
    (load kind index).attempt frame =
      match frame.locals.get index with
      | .ok value =>
        if kind.loads value then (push value).attempt frame else (.error .typeMismatch, frame)
      | .error fault => (.error fault, frame) := by
  rw [load, getLocal, Action.attempt_bind, Action.attempt_inspect]
  rcases frame.locals.get index with _ | value
  · rfl
  · dsimp only
    split <;> rfl

theorem attempt_load_of_loadable {value : Value}
    (loadable : kind.Loadable frame.locals frame.stack index value) :
    (load kind index).attempt frame = (.ok (), { frame with
      stack := ⟨value :: frame.stack.values, frame.stack.used + value.slots,
        frame.stack.capacity⟩ }) := by
  rw [attempt_load, Locals.get_eq_ok_iff.mpr loadable.found]
  simp only [kind.loads_iff, loadable.fits, if_true, attempt_push, loadable.room]

theorem attempt_load_of_fails (fails : kind.LoadFails frame.locals frame.stack index fault) :
    (load kind index).attempt frame = (.error fault, frame) := by
  rw [attempt_load]
  cases fails with
  | outside beyond => rw [Locals.get_eq_error_iff.mpr (Or.inl ⟨beyond, rfl⟩)]
  | unreadable inside nothing =>
    rw [Locals.get_eq_error_iff.mpr (Or.inr ⟨inside, nothing, rfl⟩)]
  | mistyped found unfit =>
    rw [Locals.get_eq_ok_iff.mpr found]
    simp only [kind.loads_iff, unfit, if_false]
  | noRoom found fits full =>
    rw [Locals.get_eq_ok_iff.mpr found]
    simp only [kind.loads_iff, fits, if_true, attempt_push, if_neg (Nat.not_le_of_lt full)]

theorem attempt_store (kind : LocalKind) (index : Nat) (frame : Frame) :
    (store kind index).attempt frame =
      match pop.attempt frame with
      | (.ok value, popped) =>
        if kind.stores value then (setLocal index value).attempt popped
        else (.error .typeMismatch, popped)
      | (.error fault, popped) => (.error fault, popped) := by
  rw [store, Action.attempt_bind]
  rcases pop.attempt frame with ⟨_ | value, popped⟩
  · rfl
  · dsimp only
    split <;> rfl

theorem attempt_setLocal (index : Nat) (value : Value) (frame : Frame) :
    (setLocal index value).attempt frame =
      (((Locals.set index value).attempt frame.locals).1,
        { frame with locals := ((Locals.set index value).attempt frame.locals).2 }) := rfl

theorem attempt_store_of_storable {top : Value} (wellFormed : frame.stack.WellFormed)
    (storable : kind.Storable frame.locals frame.stack index top) :
    (store kind index).attempt frame = (.ok (), { frame with
      locals := ((Locals.set index top).attempt frame.locals).2
      stack := frame.stack.withoutTop }) := by
  rw [attempt_store, attempt_pop, OperandStack.attempt_pop_of_head? wellFormed storable.onTop]
  simp only [kind.stores_iff, storable.fits, if_true, attempt_setLocal, Locals.attempt_set,
    storable.inside]

theorem attempt_store_of_fails (wellFormed : frame.stack.WellFormed)
    (fails : kind.StoreFails frame.locals frame.stack index fault) :
    (store kind index).attempt frame =
      (.error fault, { frame with stack := frame.stack.withoutTop }) := by
  rw [attempt_store, attempt_pop]
  cases fails with
  | empty none => rw [OperandStack.attempt_pop_of_nil wellFormed none]
  | mistyped onTop unfit =>
    rw [OperandStack.attempt_pop_of_head? wellFormed onTop]
    simp only [kind.stores_iff, unfit, if_false]
  | outside onTop fits beyond =>
    rw [OperandStack.attempt_pop_of_head? wellFormed onTop]
    simp only [kind.stores_iff, fits, if_true, attempt_setLocal, Locals.attempt_set,
      if_neg (Nat.not_le_of_lt beyond)]

/-! ### Loads and stores as instructions -/

variable {complete : CompleteInstruction}

/-- What a use of a local variable does to the frame behind the instruction is what a step does. -/
theorem attempt_step_of_perform {usage : LocalUse} {result : Except Fault Unit} {reached : Frame}
    (held : frame.cursor.Holds complete) (used : complete.localUse? = some usage)
    (performed : usage.perform.attempt (frame.behind complete.length) = (result, reached))
    (heap : Heap) :
    step.attempt (frame, heap) = (result.map fun _ => .proceed, (reached, heap)) := by
  rw [attempt_step_of_localUse? held used, performed]

/-- Loads and stores are typed, in all their encodings. A load goes on exactly when a value that
fits its kind starts at the index and has room on the operand stack, and then puts that value
there; a store goes on exactly when the top of the operand stack fits its kind and has its slots
inside the table, and then writes it there. Otherwise they fail for the first reason that applies,
a store after having taken the top value. Nothing else in the frame changes but that the cursor
moves behind the instruction, and the heap stays as it is. -/
theorem local_access_typed {frame : Frame} (reachable : frame.Reachable)
    {complete : CompleteInstruction} (held : frame.cursor.Holds complete) (kind : LocalKind)
    (index : Nat) (constant : Int32) (heap : Heap) :
    let moved := frame.behind complete.length
    (complete.localUse? = some ⟨.load kind, index, constant⟩ →
      (∀ signal later, step.attempt (frame, heap) = (.ok signal, later) ↔
        signal = .proceed ∧ ∃ value, kind.Loadable frame.locals frame.stack index value ∧
          later = ({ moved with
            stack := ⟨value :: frame.stack.values, frame.stack.used + value.slots,
              frame.stack.capacity⟩ }, heap)) ∧
      ∀ fault later, step.attempt (frame, heap) = (.error fault, later) ↔
        kind.LoadFails frame.locals frame.stack index fault ∧ later = (moved, heap)) ∧
    (complete.localUse? = some ⟨.store kind, index, constant⟩ →
      (∀ signal later, step.attempt (frame, heap) = (.ok signal, later) ↔
        signal = .proceed ∧ ∃ top, kind.Storable frame.locals frame.stack index top ∧
          later = ({ moved with
            locals := ((Locals.set index top).attempt frame.locals).2
            stack := frame.stack.withoutTop }, heap)) ∧
      ∀ fault later, step.attempt (frame, heap) = (.error fault, later) ↔
        kind.StoreFails frame.locals frame.stack index fault ∧
          later = ({ moved with stack := frame.stack.withoutTop }, heap)) := by
  have wellFormed := reachable.wellFormed.stack_wellFormed
  refine ⟨fun used => ?_, fun used => ?_⟩
  · refine Action.attempt_eq_iff_of_cases (fun value loadable => ?_) (fun fault fails => ?_)
      (kind.load_cases frame.locals frame.stack index)
    · exact attempt_step_of_perform held used (attempt_load_of_loadable loadable) heap
    · exact attempt_step_of_perform held used (attempt_load_of_fails fails) heap
  · refine Action.attempt_eq_iff_of_cases (fun top storable => ?_) (fun fault fails => ?_)
      (kind.store_cases frame.locals frame.stack index)
    · exact attempt_step_of_perform held used (attempt_store_of_storable wellFormed storable) heap
    · exact attempt_step_of_perform held used (attempt_store_of_fails wellFormed fails) heap

/-- A frame that has a return address in a local variable and another one on its operand stack,
which is full. -/
def withAddresses (code : Array UInt8) : Frame :=
  ⟨⟨3⟩, 0, .start code, ⟨[.entry (.returnAddress 8), .uninitialized]⟩, ⟨[.returnAddress 9], 1, 1⟩⟩

theorem reachable_withAddresses (code : Array UInt8) : (withAddresses code).Reachable := by
  have created : (create ⟨3⟩ ⟨code, 1, 2⟩ [.returnAddress 8]).attempt () =
      (.ok { withAddresses code with stack := .empty 1 }, ()) := rfl
  exact (Reachable.create created).push (.returnAddress 9)

/-- A reference store writes the address; a reference load does not read one, and that counts
before the want of room. -/
theorem local_access_typed_reference :
    (withAddresses #[0x4c]).Reachable ∧ (withAddresses #[0xc4, 0x19, 0x00, 0x00]).Reachable ∧
    step.attempt (withAddresses #[0x4c], .empty 0) =
      (.ok .proceed, (⟨⟨3⟩, 0, ⟨#[0x4c], 1⟩,
        ⟨[.entry (.returnAddress 8), .entry (.returnAddress 9)]⟩, ⟨[], 0, 1⟩⟩, .empty 0)) ∧
    step.attempt (withAddresses #[0xc4, 0x19, 0x00, 0x00], .empty 0) =
      (.error .typeMismatch,
        ((withAddresses #[0xc4, 0x19, 0x00, 0x00]).behind 4, .empty 0)) := by
  have short : (withAddresses #[0x4c]).cursor.Holds (.plain (.storeShort .reference 1) nofun) :=
    ⟨_, ⟨_, rfl, rfl⟩, [], rfl⟩
  have wide : (withAddresses #[0xc4, 0x19, 0x00, 0x00]).cursor.Holds
      (.widened (.load .reference) 0 0) := ⟨_, rfl, [], rfl⟩
  have storing := local_access_typed (reachable_withAddresses _) short .reference 1 0 (.empty 0)
  have loading := local_access_typed (reachable_withAddresses _) wide .reference 0 0 (.empty 0)
  refine ⟨reachable_withAddresses _, reachable_withAddresses _, ?_, ?_⟩
  · exact ((storing.2 rfl).1 _ _).mpr
      ⟨rfl, .returnAddress 9, ⟨rfl, .returnAddress 9, by decide⟩, rfl⟩
  · exact ((loading.1 rfl).2 _ _).mpr ⟨.mistyped rfl nofun, rfl⟩

end Frame

end BytecodeMachine
