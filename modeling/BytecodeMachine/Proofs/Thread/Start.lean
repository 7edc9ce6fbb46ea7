/-
This file ties a thread to what it was started with. The references through
which it reaches the heap are among the arguments of its method, it never runs
other code than that of its method, and the values in its frame are arguments
or integers, throughout all of its turns.
-/

import BytecodeMachine.Proofs.Frame.Confinement
import BytecodeMachine.Proofs.Thread.Turn

namespace BytecodeMachine

/-- What a thread is started with: its name, and a method with arguments. -/
structure Start where
  id : ThreadId
  method : Method
  arguments : List Value

namespace Start

/-- An integer may be computed; every other value must have been an argument. -/
def provides (start : Start) (value : Value) : Prop :=
  value ∈ start.arguments ∨ ∃ number, value = .int number

/-- The values that the frame of the thread may hold. -/
def allowance (start : Start) : Allowance where
  onStack := start.provides
  inLocals _ := start.provides
  loaded here _ := here
  stored here _ := here
  incremented _ _ := Or.inr ⟨_, rfl⟩

theorem mem_arguments_of_provides {start : Start} {value : Value} (provided : start.provides value)
    (noNumber : ∀ number, value ≠ .int number) : value ∈ start.arguments := by
  obtain member | ⟨number, rfl⟩ := provided
  · exact member
  · exact absurd rfl (noNumber number)

/-- The thread at its start. It has no frame when the arguments do not fit. -/
def thread (start : Start) : Thread :=
  ((Thread.pushFrame start.method start.arguments).attempt (.start start.id)).2

end Start

namespace Thread

/-- The thread has the name with which it was started and at most one frame; that is in order,
runs the code of the method and holds nothing but what the start provides. -/
structure StemsFrom (start : Start) (thread : Thread) : Prop where
  id_eq : thread.id = start.id
  depth_le : thread.depth ≤ 1
  frame_confined : ∀ frame ∈ thread.frames,
    frame.WellFormed start.id ∧ frame.ConfinedTo start.method.code start.allowance

variable {start : Start}

theorem StemsFrom.wellFormed {thread : Thread} (stems : thread.StemsFrom start) :
    thread.WellFormed :=
  ⟨stems.depth_le, stems.id_eq ▸ fun frame member => (stems.frame_confined frame member).1⟩

theorem StemsFrom.frames_eq {thread : Thread} (stems : thread.StemsFrom start) :
    thread = ⟨start.id, []⟩ ∨ ∃ frame, thread = ⟨start.id, [frame]⟩ ∧ frame.WellFormed start.id ∧
      frame.ConfinedTo start.method.code start.allowance := by
  obtain ⟨name, frames⟩ := thread
  have confined := stems.frame_confined
  obtain none | ⟨frame, single, -⟩ := stems.wellFormed.frames_eq <;> cases stems.id_eq
  · exact Or.inl (congrArg _ none)
  · cases single
    exact Or.inr ⟨frame, rfl, confined frame List.mem_cons_self⟩

/-- A turn of the thread keeps that, and it enters and leaves no monitors but those of objects to
which an argument refers. -/
theorem keeps_turn_stemsFrom {other : Heap → Prop}
    (entering : ∀ reference, .reference reference ∈ start.arguments →
      (Heap.enter reference start.id).Keeps other)
    (leaving : ∀ reference, .reference reference ∈ start.arguments →
      (Heap.exit reference start.id).Keeps other) (quantum : Nat) :
    (turn quantum).Keeps fun state => state.1.StemsFrom start ∧ other state.2 := by
  have argument {reference : ObjectRef} (provided : start.provides (.reference reference)) :
      .reference reference ∈ start.arguments :=
    Start.mem_arguments_of_provides provided nofun
  have step := (Frame.invariant_confinedTo start.id start.method.code start.allowance).keeps_step
    (fun reference provided => entering reference (argument provided))
    fun reference provided => leaving reference (argument provided)
  intro state holds
  obtain ⟨⟨sameName, short, confined⟩, still⟩ := keeps_turn start.id step quantum state
    ⟨⟨holds.1.id_eq, holds.1.depth_le, holds.1.frame_confined⟩, holds.2⟩
  exact ⟨⟨sameName, short, confined⟩, still⟩

theorem keeps_turn_stemsFrom_alone (quantum : Nat) :
    (turn quantum).Keeps fun state => state.1.StemsFrom start := by
  intro state stems
  have kept := @keeps_turn_stemsFrom start (fun _ => True) (fun _ _ _ _ => trivial)
    (fun _ _ _ _ => trivial) quantum
  exact (kept state ⟨stems, trivial⟩).1

end Thread

/-- At its start a thread has in its frame nothing but the arguments. -/
theorem Start.stemsFrom_thread (start : Start) : start.thread.StemsFrom start := by
  rw [thread, Thread.attempt_pushFrame_start]
  rcases laid : (Locals.lay 0 start.arguments).attempt (Locals.blank start.method.maxLocals) with
    ⟨_ | _, locals⟩
  · exact ⟨rfl, Nat.zero_le 1, nofun⟩
  · have fine : ∀ value ∈ start.arguments, ∀ index, start.allowance.inLocals index value :=
      fun value member _ => Or.inl member
    have only := Locals.keeps_only_lay fine 0 _ (Locals.only_blank start.method.maxLocals)
    rw [laid] at only
    refine ⟨rfl, Nat.le_refl 1, List.forall_mem_singleton.mpr ⟨?_, rfl, ?_, only⟩⟩
    · exact ⟨rfl, OperandStack.wellFormed_empty _, Nat.zero_le _⟩
    · exact OperandStack.only_empty _

end BytecodeMachine
