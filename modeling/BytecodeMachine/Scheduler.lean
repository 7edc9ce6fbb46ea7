/-
This file holds the scheduler, which gives its threads turns, one after the
other and round after round. Only one thread runs at any time, so nothing that
happens to a monitor races with anything else. A round in which no thread
completes an instruction or comes to its end leaves all of them waiting for
monitors that nobody will give up; such a round ends the run as a deadlock.
-/

import BytecodeMachine.Thread

namespace BytecodeMachine

/-- How a scheduler is set up: the instructions of a turn and the objects the heap can hold. -/
structure SchedulerConfig where
  quantum : Nat := 16
  heapCapacity : Nat := 1024
deriving DecidableEq

/-- A scheduler: the instructions of a turn, the heap, the table of threads in the order in
which they were started, and the number of the next one. The table keeps no keys beside its
threads: the key of a thread is the name that the thread itself bears. -/
structure Scheduler where
  quantum : Nat
  heap : Heap
  threads : List Thread
  nextId : UInt32
deriving DecidableEq

/-- What a round amounted to: the instructions completed by all threads, the threads that ended
and those that wait for a monitor. -/
structure Round where
  executed : Nat
  terminated : List ThreadId
  waiting : List ThreadId
deriving DecidableEq

/-- Whether the round brought any thread forward. -/
def Round.madeProgress (round : Round) : Bool :=
  0 < round.executed || !round.terminated.isEmpty

/-- The round in which a thread has its turn before the others. -/
def Round.after (id : ThreadId) (turn : Turn) (others : Round) : Round where
  executed := turn.executed + others.executed
  terminated := if turn.state = .terminated then id :: others.terminated else others.terminated
  waiting := if turn.state = .waitingForMonitor then id :: others.waiting else others.waiting

namespace Scheduler

/-- A scheduler without threads, whose turns have at least one instruction. -/
def create (config : SchedulerConfig) : Scheduler :=
  ⟨max config.quantum 1, .empty config.heapCapacity, [], 0⟩

/-- Performs an action on the heap from outside of all threads. -/
def onHeap {α : Type} (action : Action Heap α) : Action Scheduler α :=
  Action.zoom Scheduler.heap (fun heap scheduler => { scheduler with heap }) action

/-- The thread with a name, if it is in the table. -/
def thread? (scheduler : Scheduler) (id : ThreadId) : Option Thread :=
  scheduler.threads.find? (·.id == id)

/-- How many threads are in the table. -/
def liveThreads (scheduler : Scheduler) : Nat :=
  scheduler.threads.length

/-- The table with a thread under its name: in the place of the thread of that name, if there is
one, and otherwise behind all others. -/
def enrol (thread : Thread) (threads : List Thread) : List Thread :=
  if threads.any (·.id == thread.id) then
    threads.map fun other => if other.id = thread.id then thread else other
  else threads ++ [thread]

/-- Starts a thread with a method. A method whose arguments do not fit starts no thread and
uses up no number. -/
def spawn (method : Method) (arguments : List Value) : Action Scheduler ThreadId := do
  let scheduler ← get
  let id : ThreadId := ⟨scheduler.nextId⟩
  let thread ← Action.build (Thread.start id) (Thread.pushFrame method arguments)
  set { scheduler with
    threads := enrol thread scheduler.threads, nextId := scheduler.nextId + 1 }
  Action.report (.threadSpawned id)
  return id

/-- Gives threads one turn each. A fault in a turn ends the round, and the threads behind it
get no turn. -/
def roundOf (quantum : Nat) : List Thread → Heap → Outcome (List Thread × Heap) Round
  | [], heap => ⟨.ok ⟨0, [], []⟩, ([], heap), []⟩
  | thread :: later, heap =>
    match (Thread.turn quantum).run (thread, heap) with
    | ⟨.error fault, (thread, heap), events⟩ =>
      ⟨.error fault, (thread :: later, heap), events ++ [.threadAborted thread.id fault]⟩
    | ⟨.ok turn, (thread, heap), events⟩ =>
      let rest := roundOf quantum later heap
      let ended := if turn.state = .terminated then [.threadTerminated thread.id] else []
      ⟨rest.result.map (Round.after thread.id turn), (thread :: rest.state.1, rest.state.2),
        events ++ ended ++ rest.events⟩

/-- Gives every thread of the table one turn. After a round without a fault the threads that
have terminated leave the table. -/
def round : Action Scheduler Round := fun scheduler =>
  let outcome := roundOf scheduler.quantum scheduler.threads scheduler.heap
  let threads := match outcome.result with
    | .ok _ => outcome.state.1.filter (!·.isTerminated)
    | .error _ => outcome.state.1
  ⟨outcome.result, { scheduler with heap := outcome.state.2, threads }, outcome.events⟩

/-- Runs a round unless no thread is left. A round without progress is a deadlock of all threads
in the table. -/
def roundOrStop : Action Scheduler (Option Unit) := do
  let scheduler ← get
  if scheduler.threads.isEmpty then return some ()
  else
    let report ← round
    if report.madeProgress then return none
    else
      let blocked := (← get).threads.map Thread.id
      Action.report (.noProgress blocked)
      Action.fail (.deadlock blocked)

/-- Runs rounds until no thread is left, but at most `limit` rounds, and answers with their
number; there is no answer when threads are left. -/
def run (limit : Nat) : Action Scheduler (Option Nat) := do
  let (rounds, _) ← Action.iterate limit roundOrStop
  let scheduler ← get
  return if scheduler.threads.isEmpty then some rounds else none

theorem run_zero :
    run 0 = (do
      let scheduler ← get
      return if scheduler.threads.isEmpty then some 0 else none) := by
  simp [run, Action.iterate_zero]

/-- A run with rounds left ends when no thread is left, and otherwise begins with a round. -/
theorem run_succ (limit : Nat) :
    run (limit + 1) = (do
      let scheduler ← get
      if scheduler.threads.isEmpty then return some 0
      else
        let report ← round
        if report.madeProgress then
          let later ← run limit
          return later.map (· + 1)
        else
          let blocked := (← get).threads.map Thread.id
          Action.report (.noProgress blocked)
          Action.fail (.deadlock blocked)) := by
  have shift (finished : Bool) (rounds : Nat) :
      (if finished then some (rounds + 1) else none) =
        (if finished then some rounds else none).map (· + 1) := by
    cases finished <;> rfl
  funext scheduler
  change Action.run _ scheduler = Action.run _ scheduler
  simp only [run, Action.iterate_succ, bind_assoc]
  rw [roundOrStop, bind_assoc, Action.run_bind, Action.run_bind]
  simp only [Action.run_get]
  by_cases empty : scheduler.threads.isEmpty
  · simp [List.isEmpty_iff.mp empty, Except.map]
  · simp only [empty, Bool.false_eq_true, if_false, bind_assoc]
    rcases outcome : round.run scheduler with ⟨_ | report, reached, events⟩
    · simp [Action.run_bind, outcome]
    · rw [Action.run_bind_of_ok _ outcome, Action.run_bind_of_ok _ outcome]
      by_cases progress : report.madeProgress
      · simp only [progress, if_true, pure_bind, bind_assoc, shift]
      · simp [progress, Action.run_bind]

end Scheduler

end BytecodeMachine
