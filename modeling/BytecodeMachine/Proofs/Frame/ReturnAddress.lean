/-
This file follows the return addresses of a frame. A store may write one to a
local variable, but no load reads one, so none ever comes to the operand stack,
and there is nothing that a store could write. Main statement: an address that
stands in a local variable has stood there since the frame was created, and a
return goes on at the address that the arguments put there.
-/

import BytecodeMachine.Proofs.Frame.Advance
import BytecodeMachine.Proofs.Frame.Confinement
import BytecodeMachine.Proofs.Frame.Retry
import BytecodeMachine.Proofs.Locals.Layout

namespace BytecodeMachine

/-- No return address may lie on the operand stack, and those in the local variables are the ones
that were there before. -/
def Allowance.addressesOf (before : Locals) : Allowance where
  onStack value := ∀ offset, value ≠ .returnAddress offset
  inLocals index value :=
    ∀ offset, value = .returnAddress offset → before.slot? index = some (.entry value)
  loaded := by
    rintro kind index value - fits offset rfl
    cases kind <;> cases fits
  stored := fun fine _ offset same => absurd same (fine offset)
  incremented := fun _ _ _ same => nomatch same

namespace Frame

variable {thread : ThreadId} {frame : Frame}

/-! ### Where the addresses are -/

/-- No return address lies on the operand stack. -/
def NoAddressOnStack (frame : Frame) : Prop :=
  ∀ offset, .returnAddress offset ∉ frame.stack.values

theorem NoAddressOnStack.confinedTo (clear : frame.NoAddressOnStack) :
    frame.ConfinedTo frame.cursor.code (.addressesOf frame.locals) where
  code_eq := rfl
  stack_only := fun _ member offset same => clear offset (same ▸ member)
  locals_only := fun _ _ found _ _ => found

theorem ConfinedTo.noAddressOnStack {code : Array UInt8} {before : Locals}
    (confined : frame.ConfinedTo code (.addressesOf before)) : frame.NoAddressOnStack :=
  fun offset member => confined.stack_only _ member offset rfl

/-- Whatever the frame goes through, its addresses are among those that it had, each in its
place. -/
theorem confinedTo_afterSteps (wellFormed : frame.WellFormed thread)
    (clear : frame.NoAddressOnStack) (heaps : List Heap) :
    (frame.afterSteps heaps).ConfinedTo frame.cursor.code (.addressesOf frame.locals) :=
  ((invariant_confinedTo thread _ _).afterSteps ⟨wellFormed, clear.confinedTo⟩ heaps).2

theorem noAddressOnStack_of_create {σ : Type} {state after : σ} {method : Method}
    {arguments : List Value}
    (created : (create thread method arguments).attempt state = (.ok frame, after)) :
    frame.NoAddressOnStack := by
  obtain ⟨locals, -, rfl⟩ := exists_locals_of_create created
  exact fun _ => List.not_mem_nil

/-- The local variables of a new frame hold the arguments and nothing else. -/
theorem slot?_locals_of_create {σ : Type} {state after : σ} {method : Method}
    {arguments : List Value}
    (created : (create thread method arguments).attempt state = (.ok frame, after)) (index : Nat)
    (value : Value) :
    frame.locals.slot? index = some (.entry value) ↔
      ⟨index, value⟩ ∈ Locals.argumentsFrom 0 arguments := by
  obtain ⟨locals, laid, rfl⟩ := exists_locals_of_create created
  exact Locals.slot?_eq_entry_iff_of_create laid index value

/-! ### Returns -/

/-- The next instruction is a return by the address in a local variable, alone or behind a wide
prefix. -/
inductive AboutToReturn (frame : Frame) : Nat → Prop
  | narrow {index : UInt8} (ahead : [Opcode.ret.byte, index] <+: frame.cursor.remaining) :
    AboutToReturn frame index.toNat
  | wide {index : UInt16}
    (ahead : Opcode.wide.byte :: Opcode.ret.byte :: bigEndian index <+: frame.cursor.remaining) :
    AboutToReturn frame index.toNat

theorem AboutToReturn.exists_holds {index : Nat} (about : frame.AboutToReturn index) :
    ∃ complete, frame.cursor.Holds complete ∧ complete.returnIndex? = some index := by
  cases about with
  | @narrow index ahead => exact ⟨.plain (.ret index) nofun, ⟨_, ⟨_, rfl, rfl⟩, ahead⟩, rfl⟩
  | @wide index ahead => exact ⟨.widened .ret index 0, ⟨_, rfl, ahead⟩, rfl⟩

/-- A return that succeeds goes on at the address in its local variable. -/
theorem AboutToReturn.standsAt {index : Nat} (about : frame.AboutToReturn index)
    {heap later : Heap} {signal : Signal} {next : Frame}
    (success : step.attempt (frame, heap) = (.ok signal, (next, later))) :
    ∃ offset, frame.locals.slot? index = some (.entry (.returnAddress offset)) ∧
      next.StandsAt offset.toNat { frame.cursor with position := offset.toNat } := by
  obtain ⟨complete, held, returns⟩ := about.exists_holds
  obtain ⟨constant, used⟩ := CompleteInstruction.returnIndex?_eq_some_iff.mp returns
  obtain rfl : signal = .proceed := eq_proceed_of_localUse? held used success
  cases goesOn_of_step held success with
  | onward other => cases other.symm.trans returns
  | returned same found inside stands =>
    cases same.symm.trans returns
    exact ⟨_, Locals.get_eq_ok_iff.mp found, stands⟩

/-- Return addresses are confined to where the arguments put them. After any steps of a new frame,
failing ones included, none lies on its operand stack, and one in a local variable stood there
after any of these steps and from the first. So a return that succeeds goes on at the one value
that the arguments put into its local variable. -/
theorem return_addresses_confined {method : Method} {arguments : List Value}
    (created : (create thread method arguments).attempt () = (.ok frame, ()))
    (heaps : List Heap) :
    let reached := frame.afterSteps heaps
    (∀ offset, .returnAddress offset ∉ reached.stack.values) ∧
    (∀ index offset, reached.locals.slot? index = some (.entry (.returnAddress offset)) →
      ∀ earlier, earlier <+: heaps →
        (frame.afterSteps earlier).locals.slot? index =
          some (.entry (.returnAddress offset))) ∧
    ∀ index, reached.AboutToReturn index → ∀ heap signal next later,
      step.attempt (reached, heap) = (.ok signal, (next, later)) →
        ∃ offset,
          (∀ value, ⟨index, value⟩ ∈ Locals.argumentsFrom 0 arguments ↔
            value = .returnAddress offset) ∧
          next.pc = offset.toNat ∧ next.cursor.position = offset.toNat := by
  intro reached
  have wellFormed := wellFormed_of_create created
  have clear (steps : List Heap) : (frame.afterSteps steps).NoAddressOnStack :=
    (confinedTo_afterSteps wellFormed (noAddressOnStack_of_create created) steps).noAddressOnStack
  have stood : ∀ index offset,
      reached.locals.slot? index = some (.entry (.returnAddress offset)) →
        ∀ earlier, earlier <+: heaps →
          (frame.afterSteps earlier).locals.slot? index =
            some (.entry (.returnAddress offset)) := by
    -- the later steps start from a frame that has only the addresses of that moment
    rintro index offset found earlier ⟨rest, rfl⟩
    have wellFormedThen := (invariant_wellFormed thread).afterSteps wellFormed earlier
    have confined := confinedTo_afterSteps wellFormedThen (clear earlier) rest
    rw [← afterSteps_append] at confined
    exact confined.locals_only index _ found offset rfl
  refine ⟨clear heaps, stood, fun index about heap signal next later success => ?_⟩
  obtain ⟨offset, found, remembered, there⟩ := about.standsAt success
  have laid := stood index offset found [] List.nil_prefix
  refine ⟨offset, fun value => ?_, remembered, congrArg Cursor.position there⟩
  rw [← slot?_locals_of_create created, show frame.locals.slot? index = _ from laid]
  simp only [Option.some.injEq, Slot.entry.injEq, eq_comm]

/-- A frame whose method does nothing and then returns, behind a wide prefix, to where it began. -/
def returning : Frame :=
  ⟨⟨0⟩, 0, .start #[0x00, 0xc4, 0xa9, 0x00, 0x01],
    ⟨[.entry (.int 7), .entry (.returnAddress 0)]⟩, .empty 1⟩

theorem return_addresses_confined_wide :
    (create ⟨0⟩ ⟨returning.cursor.code, 1, 2⟩ [.int 7, .returnAddress 0]).attempt () =
      (.ok returning, ()) ∧
    (returning.afterSteps [.empty 0]).AboutToReturn 1 ∧
    ∃ next later, step.attempt (returning.afterSteps [.empty 0], .empty 0) =
      (.ok .proceed, (next, later)) ∧ next.pc = 0 := by
  have created : (create ⟨0⟩ ⟨returning.cursor.code, 1, 2⟩ [.int 7, .returnAddress 0]).attempt () =
      (.ok returning, ()) := rfl
  have about : (returning.afterSteps [.empty 0]).AboutToReturn (1 : UInt16).toNat :=
    .wide ⟨[], rfl⟩
  refine ⟨created, about, _, _, rfl, ?_⟩
  obtain ⟨offset, only, jumped, -⟩ :=
    (return_addresses_confined created [.empty 0]).2.2 1 about (.empty 0) _ _ _ rfl
  cases (only (.returnAddress 0)).mp (by decide)
  exact jumped

end Frame

end BytecodeMachine
