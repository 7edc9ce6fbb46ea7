/-
This file says which frames can come about from outside: by creating a frame
and then by any steps, pushes, pops and writes to its local variables, whether
they succeed or fail, and with any heap at each step. All of them are in order.
-/

import BytecodeMachine.Proofs.Frame.Step

namespace BytecodeMachine.Frame

theorem attempt_create {σ : Type} (thread : ThreadId) (method : Method) (arguments : List Value)
    (state : σ) :
    (create thread method arguments).attempt state =
      ((((Locals.create method.maxLocals arguments).attempt state).1).map fun locals =>
        ⟨thread, 0, .start method.code, locals, .empty method.maxStack⟩, state) := by
  rw [create, Action.attempt_bind, Locals.create, Action.attempt_build]
  rcases ((Locals.lay 0 arguments).attempt (Locals.blank method.maxLocals)).1 with _ | _ <;> rfl

/-- A frame that was created is at the beginning of its method and has nothing but a new table of
local variables. -/
theorem exists_locals_of_create {σ : Type} {thread : ThreadId} {method : Method}
    {arguments : List Value} {state after : σ} {frame : Frame}
    (created : (create thread method arguments).attempt state = (.ok frame, after)) :
    ∃ locals, (Locals.create method.maxLocals arguments).attempt state = (.ok locals, state) ∧
      frame = ⟨thread, 0, .start method.code, locals, .empty method.maxStack⟩ := by
  rw [attempt_create, Prod.mk.injEq] at created
  obtain ⟨locals, laid, rfl⟩ := Except.exists_of_map_eq_ok created.1
  exact ⟨locals, Prod.ext laid rfl, rfl⟩

theorem wellFormed_of_create {σ : Type} {thread : ThreadId} {method : Method}
    {arguments : List Value} {state after : σ} {frame : Frame}
    (created : (create thread method arguments).attempt state = (.ok frame, after)) :
    frame.WellFormed thread := by
  obtain ⟨locals, -, rfl⟩ := exists_locals_of_create created
  exact ⟨rfl, OperandStack.wellFormed_empty _, Nat.zero_le _⟩

/-- A frame that comes about from a new one by steps, pushes, pops and writes to its local
variables, in any order. -/
inductive Reachable : Frame → Prop
  | create {thread : ThreadId} {method : Method} {arguments : List Value} {frame : Frame}
      (created : (create thread method arguments).attempt () = (.ok frame, ())) : Reachable frame
  | step {frame : Frame} (before : Reachable frame) (heap : Heap) :
      Reachable (step.attempt (frame, heap)).2.1
  | push {frame : Frame} (before : Reachable frame) (value : Value) :
      Reachable ((push value).attempt frame).2
  | pop {frame : Frame} (before : Reachable frame) : Reachable (pop.attempt frame).2
  | setLocal {frame : Frame} (before : Reachable frame) (index : Nat) (value : Value) :
      Reachable ((setLocal index value).attempt frame).2

theorem Reachable.exists_wellFormed {frame : Frame} (reachable : frame.Reachable) :
    ∃ thread, frame.WellFormed thread := by
  induction reachable with
  | create created => exact ⟨_, wellFormed_of_create created⟩
  | step before heap inductionHypothesis =>
    obtain ⟨thread, wellFormed⟩ := inductionHypothesis
    exact ⟨thread, keeps_step_wellFormed (_, heap) wellFormed⟩
  | push before value inductionHypothesis =>
    obtain ⟨thread, wellFormed⟩ := inductionHypothesis
    exact ⟨thread, keeps_push value _ wellFormed⟩
  | pop before inductionHypothesis =>
    obtain ⟨thread, wellFormed⟩ := inductionHypothesis
    exact ⟨thread, keeps_pop _ wellFormed⟩
  | setLocal before index value inductionHypothesis =>
    obtain ⟨thread, wellFormed⟩ := inductionHypothesis
    exact ⟨thread, keeps_onLocals _ _ wellFormed⟩

theorem Reachable.wellFormed {frame : Frame} (reachable : frame.Reachable) :
    frame.WellFormed frame.thread := by
  obtain ⟨thread, wellFormed⟩ := reachable.exists_wellFormed
  rwa [wellFormed.thread_eq]

end BytecodeMachine.Frame
