/-
This file remembers with what the threads of a scheduler were started. Every
thread in the table stems from the latest start under its name, whatever rounds
were given and whatever was done to the heap from outside since then.
-/

import BytecodeMachine.Proofs.Scheduler.Reachable
import BytecodeMachine.Proofs.Thread.Start

namespace BytecodeMachine.Scheduler

/-- A scheduler comes from a new one by starting threads, by rounds and by anything that is done
to the heap from outside, in any order and whether it succeeds or fails. The threads were started
as listed, the latest first. -/
inductive StartedAs : Scheduler → List Start → Prop
  | create (config : SchedulerConfig) : StartedAs (create config) []
  | spawned {scheduler after : Scheduler} {starts : List Start} {method : Method}
      {arguments : List Value} {id : ThreadId} (before : StartedAs scheduler starts)
      (accepted : (spawn method arguments).attempt scheduler = (.ok id, after)) :
      StartedAs after (⟨id, method, arguments⟩ :: starts)
  | refused {scheduler after : Scheduler} {starts : List Start} {method : Method}
      {arguments : List Value} {fault : Fault} (before : StartedAs scheduler starts)
      (failed : (spawn method arguments).attempt scheduler = (.error fault, after)) :
      StartedAs after starts
  | round {scheduler : Scheduler} {starts : List Start} (before : StartedAs scheduler starts) :
      StartedAs (round.attempt scheduler).2 starts
  | onHeap {scheduler : Scheduler} {starts : List Start} (before : StartedAs scheduler starts)
      {α : Type} (action : Action Heap α) : StartedAs ((onHeap action).attempt scheduler).2 starts

/-- The latest start under a name. -/
def startOf? (starts : List Start) (id : ThreadId) : Option Start :=
  starts.find? (·.id == id)

/-- The thread stems from the latest start under its name. -/
def HasOrigin (starts : List Start) (thread : Thread) : Prop :=
  ∃ start, startOf? starts thread.id = some start ∧ thread.StemsFrom start

/-- An attempt to start a thread is accepted under the next number and enrols the thread, or
changes nothing. -/
theorem spawn_eq_ok {scheduler after : Scheduler} {method : Method} {arguments : List Value}
    {id : ThreadId} (accepted : (spawn method arguments).attempt scheduler = (.ok id, after)) :
    id = ⟨scheduler.nextId⟩ ∧ after = { scheduler with
      threads := enrol (Start.thread ⟨id, method, arguments⟩) scheduler.threads
      nextId := scheduler.nextId + 1 } := by
  rw [attempt_spawn] at accepted
  rcases started : (Thread.pushFrame method arguments).attempt (.start ⟨scheduler.nextId⟩) with
    ⟨_ | _, thread⟩ <;> rw [started] at accepted <;> cases accepted
  refine ⟨rfl, ?_⟩
  rw [Start.thread, started]

theorem spawn_eq_error {scheduler after : Scheduler} {method : Method} {arguments : List Value}
    {fault : Fault}
    (failed : (spawn method arguments).attempt scheduler = (.error fault, after)) :
    after = scheduler := by
  rw [attempt_spawn] at failed
  split at failed <;> cases failed
  rfl

/-- A turn does not change where a thread comes from. -/
theorem keeps_hasOrigin (starts : List Start) (quantum : Nat) :
    (Thread.turn quantum).Keeps fun state => HasOrigin starts state.1 := by
  rintro ⟨thread, heap⟩ ⟨start, found, stems⟩
  exact ⟨start, found, Thread.keeps_turn_stemsFrom_alone quantum (thread, heap) stems⟩

theorem StartedAs.hasOrigin {scheduler : Scheduler} {starts : List Start}
    (history : StartedAs scheduler starts) :
    ∀ thread ∈ scheduler.threads, HasOrigin starts thread := by
  induction history with
  | create config => exact nofun
  | @spawned scheduler after starts method arguments id before accepted inductionHypothesis =>
    obtain ⟨-, rfl⟩ := spawn_eq_ok accepted
    intro thread member
    have stems := Start.stemsFrom_thread ⟨id, method, arguments⟩
    have named : (Start.thread ⟨id, method, arguments⟩).id = id := stems.id_eq
    obtain rfl | ⟨present, different⟩ := mem_enrol member
    · refine ⟨_, ?_, stems⟩
      exact List.find?_cons_of_pos (beq_iff_eq.mpr named.symm)
    · obtain ⟨start, found, stems⟩ := inductionHypothesis thread present
      refine ⟨start, ?_, stems⟩
      rw [named] at different
      rw [startOf?, List.find?_cons_of_neg (by simpa using different.symm)]
      exact found
  | refused before failed inductionHypothesis =>
    rw [spawn_eq_error failed]
    exact inductionHypothesis
  | @round scheduler starts before inductionHypothesis =>
    intro thread member
    exact keeps_roundOf (keeps_hasOrigin starts scheduler.quantum) scheduler.threads scheduler.heap
      inductionHypothesis thread (mem_threads_round member)
  | onHeap before action inductionHypothesis => exact inductionHypothesis

end BytecodeMachine.Scheduler
