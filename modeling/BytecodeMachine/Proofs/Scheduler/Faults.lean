/-
This file says with which faults turns, rounds and runs can fail. Rounds hand
on the faults of steps, so a deadlock is never raised by a thread: when a run
ends in one, it has just seen a round without progress, and it names all
threads that are then in the table.
-/

import BytecodeMachine.Proofs.Frame.Faults
import BytecodeMachine.Proofs.Scheduler.Round

namespace BytecodeMachine

theorem Frame.raises_runFor (quantum : Nat) : (runFor quantum).RaisesOnly Fault.arisesInStep := by
  induction quantum with
  | zero =>
    rw [runFor_zero]
    exact Action.RaisesOnly.pure _
  | succ quantum inductionHypothesis =>
    rw [runFor_succ]
    refine raises_step.bind fun signal => ?_
    cases signal
    · exact inductionHypothesis.bind fun _ => Action.RaisesOnly.pure _
    · exact Action.RaisesOnly.pure _
    · exact Action.RaisesOnly.pure _

namespace Thread

theorem arisesInStep_of_turnOf {id : ThreadId} {frames : List Frame} {quantum : Nat} {heap : Heap}
    {fault : Fault} (failed : (turnOf id frames quantum heap).result = .error fault) :
    fault.arisesInStep := by
  induction frames generalizing quantum heap with
  | nil => cases failed
  | cons frame below inductionHypothesis =>
    rcases outcome : (Frame.runFor quantum).run (frame, heap) with
      ⟨raised | ⟨executed, _ | _ | _⟩, ⟨reached, after⟩, events⟩ <;>
      simp only [turnOf, outcome] at failed
    case error =>
      cases failed
      exact Frame.raises_runFor quantum (congrArg Outcome.result outcome)
    case ok.endOfCode => exact inductionHypothesis (Except.error_of_map_eq_error failed)
    all_goals cases failed

theorem raises_turn (quantum : Nat) : (turn quantum).RaisesOnly Fault.arisesInStep :=
  fun _ _ => arisesInStep_of_turnOf

end Thread

namespace Scheduler

theorem arisesInStep_of_attemptRoundOf {quantum : Nat} {threads : List Thread} {heap : Heap}
    {fault : Fault} (failed : (attemptRoundOf quantum threads heap).1 = .error fault) :
    fault.arisesInStep := by
  induction threads generalizing heap with
  | nil => cases failed
  | cons thread later inductionHypothesis =>
    rw [attemptRoundOf_cons] at failed
    rcases turned : (Thread.turn quantum).attempt (thread, heap) with
      ⟨_ | turn, reached, after⟩ <;> simp only [turned] at failed
    · cases failed
      exact Thread.raises_turn quantum (congrArg Prod.fst turned)
    · exact inductionHypothesis (Except.error_of_map_eq_error failed)

theorem raises_round : round.RaisesOnly Fault.arisesInStep := by
  intro scheduler fault failed
  rw [attempt_round] at failed
  rcases turns : attemptRoundOf scheduler.quantum scheduler.threads scheduler.heap with
    ⟨_ | report, threads, heap⟩ <;> rw [turns] at failed <;> cases failed
  exact arisesInStep_of_attemptRoundOf (congrArg Prod.fst turns)

/-- A run that ends as a deadlock ends with a round of the threads in the table that makes no
progress, and it names the threads that are in the table then. What rounds keep still holds
before that last round. -/
theorem exists_idle_round_of_deadlock {property : Scheduler → Prop} (kept : round.Keeps property)
    {limit : Nat} {scheduler later : Scheduler} {blocked : List ThreadId}
    (holds : property scheduler)
    (deadlocked : (run limit).attempt scheduler = (.error (.deadlock blocked), later)) :
    ∃ before report, property before ∧ before.threads ≠ [] ∧
      round.attempt before = (.ok report, later) ∧ report.madeProgress = false ∧
      blocked = later.threads.map Thread.id := by
  induction limit generalizing scheduler with
  | zero =>
    rw [run_zero, Action.attempt_bind_of_ok _ (Action.attempt_get _)] at deadlocked
    cases deadlocked
  | succ limit inductionHypothesis =>
    by_cases inhabited : scheduler.threads = []
    · cases (attempt_run_of_empty inhabited _).symm.trans deadlocked
    · have still := kept scheduler holds
      rw [attempt_run_succ inhabited] at deadlocked
      rcases outcome : round.attempt scheduler with ⟨fault | report, reached⟩ <;>
        simp only [outcome] at deadlocked still
      · cases deadlocked
        cases raises_round (congrArg Prod.fst outcome)
      · split at deadlocked
        · rw [Prod.mk.injEq] at deadlocked
          obtain ⟨failed, rfl⟩ := deadlocked
          exact inductionHypothesis still (Prod.ext (Except.error_of_map_eq_error failed) rfl)
        · next idle =>
          cases deadlocked
          exact ⟨scheduler, report, holds, inhabited, outcome, by simpa using idle, rfl⟩

end Scheduler

end BytecodeMachine
