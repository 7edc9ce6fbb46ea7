/-
This file holds the threads. A thread is a stack of frames of which the current
one runs; it is given turns, each of at most a quantum of instructions. A turn
ends early when the thread waits for a monitor, has no frame left, or fails.
-/

import BytecodeMachine.Frame.Execute

namespace BytecodeMachine

/-! ### Running a frame -/

/-- Why a frame stopped running. -/
inductive Stop
  /-- As many instructions as allowed have been executed. -/
  | quantumSpent
  /-- The frame waits for a monitor. -/
  | blocked
  /-- The frame came to the end of its code. -/
  | endOfCode
deriving DecidableEq

/-- How many instructions a frame executed and why it stopped. -/
structure Stretch where
  executed : Nat
  stop : Stop
deriving DecidableEq

/-- Performs a step of a frame and answers why the frame stops, if it does. -/
def Frame.stepOrStop : Action (Frame × Heap) (Option Stop) := do
  match ← Frame.step with
  | .proceed => return none
  | .yield => return some .blocked
  | .endOfCode => return some .endOfCode

/-- Executes instructions of a frame, at most as many as the quantum allows. -/
def Frame.runFor (quantum : Nat) : Action (Frame × Heap) Stretch := do
  let (executed, stop) ← Action.iterate quantum Frame.stepOrStop
  return ⟨executed, stop.getD .quantumSpent⟩

theorem Frame.runFor_zero : Frame.runFor 0 = pure ⟨0, .quantumSpent⟩ := by
  simp [runFor, Action.iterate_zero]

/-- A frame with a quantum left performs one step and, unless it stops, goes on with one
instruction less. -/
theorem Frame.runFor_succ (quantum : Nat) :
    Frame.runFor (quantum + 1) = (do
      match ← Frame.step with
      | .proceed =>
        let rest ← Frame.runFor quantum
        return { rest with executed := rest.executed + 1 }
      | .yield => return ⟨0, .blocked⟩
      | .endOfCode => return ⟨0, .endOfCode⟩) := by
  simp only [runFor, Action.iterate_succ, stepOrStop, bind_assoc]
  congr 1
  funext signal
  cases signal <;> simp

/-! ### Threads -/

/-- A thread: its name and its frames, the current one first. -/
structure Thread where
  id : ThreadId
  frames : List Frame
deriving DecidableEq

/-- What a thread is ready for after its turn. -/
inductive ThreadState
  | runnable
  | waitingForMonitor
  | terminated
deriving DecidableEq

/-- What a turn amounted to: the instructions completed and the state of the thread. -/
structure Turn where
  executed : Nat
  state : ThreadState
deriving DecidableEq

namespace Thread

/-- A thread without frames. -/
def start (id : ThreadId) : Thread :=
  ⟨id, []⟩

/-- How many frames the thread has. -/
def depth (thread : Thread) : Nat :=
  thread.frames.length

/-- A thread without frames has terminated. -/
def isTerminated (thread : Thread) : Bool :=
  thread.frames.isEmpty

/-- The frame that runs in the thread's turns. -/
def current? (thread : Thread) : Option Frame :=
  thread.frames.head?

/-- Puts a frame for a method on top of the thread's frames. -/
def pushFrame (method : Method) (arguments : List Value) : Action Thread Unit := do
  let thread ← get
  let frame ← Frame.create thread.id method arguments
  set { thread with frames := frame :: thread.frames }

/-- Gives frames, the current one first, a turn. A frame that comes to the end of its code is
dropped, and the one below goes on with what remains of the quantum. -/
def turnOf (id : ThreadId) : List Frame → Nat → Heap → Outcome (List Frame × Heap) Turn
  | [], _, heap => ⟨.ok ⟨0, .terminated⟩, ([], heap), []⟩
  | frame :: below, quantum, heap =>
    match (Frame.runFor quantum).run (frame, heap) with
    | ⟨.error fault, (frame, heap), events⟩ => ⟨.error fault, (frame :: below, heap), events⟩
    | ⟨.ok ⟨executed, .quantumSpent⟩, (frame, heap), events⟩ =>
      ⟨.ok ⟨executed, .runnable⟩, (frame :: below, heap), events⟩
    | ⟨.ok ⟨executed, .blocked⟩, (frame, heap), events⟩ =>
      ⟨.ok ⟨executed, .waitingForMonitor⟩, (frame :: below, heap), events⟩
    | ⟨.ok ⟨executed, .endOfCode⟩, (_, heap), events⟩ =>
      let rest := turnOf id below (quantum - executed) heap
      ⟨rest.result.map fun turn => { turn with executed := executed + turn.executed }, rest.state,
        events ++ .frameLeft id below.length :: rest.events⟩

/-- Gives the thread a turn of at most a quantum of instructions. -/
def turn (quantum : Nat) : Action (Thread × Heap) Turn := fun (thread, heap) =>
  let outcome := turnOf thread.id thread.frames quantum heap
  ⟨outcome.result, ({ thread with frames := outcome.state.1 }, outcome.state.2), outcome.events⟩

end Thread

end BytecodeMachine
