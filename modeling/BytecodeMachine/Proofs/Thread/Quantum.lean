/-
This file counts the turns of a thread that has a heap to itself and comes to its
end without a fault and without waiting. Main statement: each of its turns
completes as many instructions as the quantum allows until there are fewer left;
the turn that completes these ends the thread. When the instructions are divided
by the quantum without a rest, that is one more turn, which completes none.
-/

import BytecodeMachine.Proofs.Thread.Solo
import BytecodeMachine.Proofs.Thread.Splitting

namespace BytecodeMachine

namespace Thread

/-- Left to itself, the thread has a number of instructions before its end: it completes them in
a turn that is long enough, without a fault and without waiting, and is left with its heap as
given. -/
def EndsAfter (count : Nat) (last state : Thread × Heap) : Prop :=
  state.1.isTerminated = false ∧
    ∃ quantum, (turn quantum).attempt state = (.ok ⟨count, .terminated⟩, last)

namespace EndsAfter

variable {count : Nat} {last state : Thread × Heap}

theorem isTerminated_last (ends : EndsAfter count last state) : last.1.isTerminated := by
  obtain ⟨-, quantum, ended⟩ := ends
  exact (state_eq_terminated_iff ended).mp rfl

/-- A turn ends the thread if it allows more instructions than there are left; otherwise it
completes as many as it allows and leaves the others. -/
theorem attempt_turn (ends : EndsAfter count last state) (quantum : Nat) :
    (count < quantum ∧ (turn quantum).attempt state = (.ok ⟨count, .terminated⟩, last)) ∨
      ∃ left reached, count = quantum + left ∧
        (turn quantum).attempt state = (.ok ⟨quantum, .runnable⟩, reached) ∧
        EndsAfter left last reached := by
  obtain ⟨alive, enough, ended⟩ := ends
  have short : count < enough := executed_lt_of_terminated alive ended
  obtain less | more := Nat.le_total quantum enough
  · obtain ⟨second, rfl⟩ := Nat.exists_eq_add_of_le less
    rcases begun : (turn quantum).attempt state with ⟨_ | ⟨executed, _ | _ | _⟩, reached⟩
    case ok.runnable =>
      cases executed_eq_of_runnable begun
      rw [attempt_turn_add_of_runnable begun] at ended
      rcases rested : (turn second).attempt reached with ⟨_ | ⟨left, rest⟩, final⟩ <;>
        rw [rested] at ended <;> cases ended
      have goesOn := mt (state_eq_terminated_iff begun).mpr nofun
      exact Or.inr ⟨left, reached, rfl, rfl, Bool.eq_false_iff.mpr goesOn, second, rested⟩
    all_goals
      rw [attempt_turn_add_of_not_runnable (by rw [begun]; exact nofun)] at ended
      cases begun.symm.trans ended
    exact Or.inl ⟨executed_lt_of_terminated alive begun, rfl⟩
  · obtain ⟨extra, rfl⟩ := Nat.exists_eq_add_of_le more
    refine Or.inl ⟨Nat.lt_of_lt_of_le short more, ?_⟩
    rw [attempt_turn_add_of_not_runnable (by rw [ended]; exact nofun), ended]

end EndsAfter

end Thread

namespace Start

/-- Alone on a copy of the heap the thread comes to its end after a number of instructions,
without a fault and without waiting. How the instructions are divided into turns does not matter,
so they are given in a single turn. -/
def EndsAlone (start : Start) (heap : Heap) (count : Nat) : Prop :=
  ∃ quantum last,
    (Thread.turn quantum).attempt (start.thread, heap) = (.ok ⟨count, .terminated⟩, last)

variable {start : Start} {heap : Heap} {count : Nat} {last : Thread × Heap}

theorem EndsAlone.exists_endsAfter (ends : start.EndsAlone heap count)
    (alive : start.thread.isTerminated = false) :
    ∃ last, Thread.EndsAfter count last (start.thread, heap) := by
  obtain ⟨quantum, last, ended⟩ := ends
  exact ⟨last, alive, quantum, ended⟩

variable (ends : Thread.EndsAfter count last (start.thread, heap)) (quantum : Nat)

include ends

/-- Before the thread ends, each of its turns has completed as many instructions as the quantum
allows. -/
theorem endsAfter_alone {turns : Nat} (within : turns * quantum ≤ count) :
    Thread.EndsAfter (count - turns * quantum) last (start.alone quantum heap turns) := by
  induction turns with
  | zero =>
    rw [Nat.zero_mul]
    exact ends
  | succ turns inductionHypothesis =>
    rw [Nat.succ_mul] at within
    have before := inductionHypothesis (Nat.le_of_add_right_le within)
    obtain ⟨few, -⟩ | ⟨left, reached, rest, turned, onward⟩ := before.attempt_turn quantum
    · omega
    · have goes : count - (turns + 1) * quantum = left := by
        rw [Nat.succ_mul]
        omega
      rw [goes, alone, turned]
      exact onward

/-- Once the instructions are fewer than the turns allow, the thread has ended. -/
theorem alone_eq_last {turns : Nat} (beyond : count < turns * quantum) :
    start.alone quantum heap turns = last := by
  induction turns with
  | zero => exact absurd beyond (by simp)
  | succ turns inductionHypothesis =>
    rw [alone]
    by_cases sooner : count < turns * quantum
    · rw [inductionHypothesis sooner]
      exact congrArg Prod.snd
        (Thread.attempt_turn_of_terminated ends.isTerminated_last quantum last.2)
    · have before := endsAfter_alone ends quantum (Nat.le_of_not_lt sooner)
      obtain ⟨-, turned⟩ | ⟨left, -, rest, -⟩ := before.attempt_turn quantum
      · rw [turned]
      · rw [Nat.succ_mul] at beyond
        omega

/-- What each turn of the thread alone amounts to. -/
theorem turnAlone_eq (turns : Nat) :
    start.turnAlone quantum heap turns =
      .ok ⟨min quantum (count - turns * quantum),
        if count < (turns + 1) * quantum then .terminated else .runnable⟩ := by
  rw [turnAlone, Nat.succ_mul]
  by_cases ended : count < turns * quantum
  · have nothing : count - turns * quantum = 0 := Nat.sub_eq_zero_of_le (Nat.le_of_lt ended)
    rw [alone_eq_last ends quantum ended, nothing, Nat.min_zero,
      if_pos (Nat.lt_of_lt_of_le ended (Nat.le_add_right _ _))]
    exact congrArg Prod.fst
      (Thread.attempt_turn_of_terminated ends.isTerminated_last quantum last.2)
  · have before := endsAfter_alone ends quantum (Nat.le_of_not_lt ended)
    obtain ⟨few, turned⟩ | ⟨left, reached, rest, turned, -⟩ := before.attempt_turn quantum
    · rw [turned, Nat.min_eq_right (Nat.le_of_lt few), if_pos (by omega)]
    · rw [turned, rest, Nat.min_eq_left (Nat.le_add_right _ _), if_neg (by omega)]

end Start

end BytecodeMachine
