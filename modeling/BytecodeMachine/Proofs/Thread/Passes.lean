/-
This file takes a turn apart into the passes of one loop: as long as the quantum
is not spent and a frame is left, the current frame makes a step or is dropped.
Main statement: the loop ends, and with what the turn gives. Each pass but the
last completes an instruction or drops a frame, so there are no more of them
than the quantum allows and the thread has frames.
-/

import BytecodeMachine.Proofs.Thread.Splitting

namespace BytecodeMachine

/-! ### Repetition -/

namespace Action

variable {σ α : Type} {action : Action σ (Option α)} {state reached : σ} {events : List Event}

theorem run_iterate_of_some {value : α}
    (answered : action.run state = ⟨.ok (some value), reached, events⟩) (limit : Nat) :
    (iterate (limit + 1) action).run state = ⟨.ok (0, some value), reached, events⟩ := by
  rw [iterate_succ, run_bind_of_ok _ answered]
  simp only [run_pure, List.append_nil]

theorem run_iterate_of_none (unanswered : action.run state = ⟨.ok none, reached, events⟩)
    (limit : Nat) :
    (iterate (limit + 1) action).run state =
      let rest := (iterate limit action).run reached
      ⟨rest.result.map fun answer => (answer.1 + 1, answer.2), rest.state,
        events ++ rest.events⟩ := by
  rw [iterate_succ, run_bind_of_ok _ unanswered]
  simp only [run_bind]
  rcases (iterate limit action).run reached with ⟨_ | answer, last, more⟩
  · rfl
  · simp only [run_pure, List.append_nil]
    rfl

theorem run_iterate_of_error {fault : Fault}
    (failed : action.run state = ⟨.error fault, reached, events⟩) (limit : Nat) :
    (iterate (limit + 1) action).run state = ⟨.error fault, reached, events⟩ := by
  rw [iterate_succ, run_bind_of_error _ failed]

end Action

namespace Thread

/-! ### The first step of a turn -/

theorem turnOf_zero (id : ThreadId) (frame : Frame) (below : List Frame) (heap : Heap) :
    turnOf id (frame :: below) 0 heap = ⟨.ok ⟨0, .runnable⟩, (frame :: below, heap), []⟩ := by
  simp only [turnOf, Frame.runFor_zero, Action.run_pure]

/-- A turn of frames is a step of the current one and, if that goes on or is dropped, a turn with
what remains of the quantum. -/
theorem turnOf_succ (id : ThreadId) (frame : Frame) (below : List Frame) (quantum : Nat)
    (heap : Heap) :
    turnOf id (frame :: below) (quantum + 1) heap =
      match Frame.step.run (frame, heap) with
      | ⟨.ok .proceed, (next, after), events⟩ =>
        let rest := turnOf id (next :: below) quantum after
        ⟨rest.result.map (Turn.after 1), rest.state, events ++ rest.events⟩
      | ⟨.ok .yield, (next, after), events⟩ =>
        ⟨.ok ⟨0, .waitingForMonitor⟩, (next :: below, after), events⟩
      | ⟨.ok .endOfCode, (_, after), events⟩ =>
        let rest := turnOf id below (quantum + 1) after
        ⟨rest.result, rest.state, events ++ .frameLeft id below.length :: rest.events⟩
      | ⟨.error fault, (next, after), events⟩ =>
        ⟨.error fault, (next :: below, after), events⟩ := by
  have whole := congrArg (Action.run · (frame, heap)) (Frame.runFor_succ quantum)
  rcases stepped : Frame.step.run (frame, heap) with
    ⟨_ | _ | _ | _, ⟨next, after⟩, events⟩ <;>
    simp only [Action.run_bind, stepped, Action.run_pure, List.append_nil] at whole <;> dsimp only
  case ok.proceed =>
    rcases rested : (Frame.runFor quantum).run (next, after) with
      ⟨_ | ⟨executed, _ | _ | _⟩, ⟨last, final⟩, more⟩ <;> simp only [rested] at whole
    case ok.endOfCode =>
      rw [turnOf_of_endOfCode whole, turnOf_of_endOfCode rested, Nat.add_sub_add_right]
      simp only [Turn.map_after_map_after, Nat.add_comm 1, List.append_assoc]
    case error =>
      simp only [turnOf, whole, rested]
      rfl
    all_goals
      simp only [turnOf, whole, rested, Nat.add_comm executed]
      rfl
  case ok.endOfCode =>
    rw [turnOf_of_endOfCode whole, Nat.sub_zero]
    simp only [Turn.map_after_zero]
  all_goals simp only [turnOf, whole]

/-! ### The loop -/

/-- What a pass comes to when the current frame has made its step. -/
def passAfter (executed : Nat) (id : ThreadId) (below : List Frame) :
    Outcome (Frame × Heap) Signal → Outcome (Nat × Thread × Heap) (Option Turn)
  | ⟨.ok .proceed, (frame, heap), events⟩ =>
    ⟨.ok none, (executed + 1, ⟨id, frame :: below⟩, heap), events⟩
  | ⟨.ok .yield, (frame, heap), events⟩ =>
    ⟨.ok (some ⟨executed, .waitingForMonitor⟩), (executed, ⟨id, frame :: below⟩, heap), events⟩
  | ⟨.ok .endOfCode, (_, heap), events⟩ =>
    ⟨.ok none, (executed, ⟨id, below⟩, heap), events ++ [.frameLeft id below.length]⟩
  | ⟨.error fault, (frame, heap), events⟩ =>
    ⟨.error fault, (executed, ⟨id, frame :: below⟩, heap), events⟩

/-- One pass of the loop, with the number of instructions completed before it. It answers with
the report of the turn when that is over. -/
def pass (quantum : Nat) : Action (Nat × Thread × Heap) (Option Turn) :=
  fun (executed, thread, heap) =>
    match thread.frames with
    | [] => ⟨.ok (some ⟨executed, .terminated⟩), (executed, thread, heap), []⟩
    | frame :: below =>
      if executed < quantum then
        passAfter executed thread.id below (Frame.step.run (frame, heap))
      else ⟨.ok (some ⟨executed, .runnable⟩), (executed, thread, heap), []⟩

theorem run_pass_of_nil (quantum executed : Nat) (id : ThreadId) (heap : Heap) :
    (pass quantum).run (executed, ⟨id, []⟩, heap) =
      ⟨.ok (some ⟨executed, .terminated⟩), (executed, ⟨id, []⟩, heap), []⟩ := rfl

theorem run_pass_of_spent {quantum executed : Nat} (spent : ¬ executed < quantum) (id : ThreadId)
    (frame : Frame) (below : List Frame) (heap : Heap) :
    (pass quantum).run (executed, ⟨id, frame :: below⟩, heap) =
      ⟨.ok (some ⟨executed, .runnable⟩), (executed, ⟨id, frame :: below⟩, heap), []⟩ := by
  simp only [Action.run, pass, if_neg spent]

theorem run_pass_of_more {quantum executed : Nat} (more : executed < quantum) (id : ThreadId)
    (frame : Frame) (below : List Frame) (heap : Heap) :
    (pass quantum).run (executed, ⟨id, frame :: below⟩, heap) =
      passAfter executed id below (Frame.step.run (frame, heap)) := by
  rw [Action.run, pass]
  exact if_pos more

/-- From any pass on, the loop ends with what a turn of the remaining quantum gives. -/
theorem run_iterate_pass (limit executed remaining : Nat) (thread : Thread) (heap : Heap)
    (enough : remaining + thread.depth < limit) :
    ∃ passes counted, passes ≤ remaining + thread.depth ∧
      (Action.iterate limit (pass (executed + remaining))).run (executed, thread, heap) =
        let outcome := (turn remaining).run (thread, heap)
        ⟨outcome.result.map fun report => (passes, some (report.after executed)),
          (counted, outcome.state), outcome.events⟩ := by
  -- neither the remaining quantum nor the depth alone goes down in every pass, their sum does
  induction limit generalizing executed remaining thread heap with
  | zero => exact absurd enough (Nat.not_lt_zero _)
  | succ limit inductionHypothesis =>
    obtain ⟨id, _ | ⟨frame, below⟩⟩ := thread
    · refine ⟨0, executed, Nat.zero_le _, ?_⟩
      rw [Action.run_iterate_of_some (run_pass_of_nil _ executed id heap)]
      rfl
    cases remaining with
    | zero =>
      have spent : ¬ executed < executed + 0 := Nat.lt_irrefl executed
      refine ⟨0, executed, Nat.zero_le _, ?_⟩
      rw [Action.run_iterate_of_some (run_pass_of_spent spent id frame below heap), run_turn,
        turnOf_zero]
      rfl
    | succ remaining =>
      have more : executed < executed + (remaining + 1) :=
        Nat.lt_add_of_pos_right (Nat.succ_pos _)
      have passed := run_pass_of_more more id frame below heap
      rw [run_turn, turnOf_succ]
      simp only [depth, List.length_cons] at enough
      rcases stepped : Frame.step.run (frame, heap) with
        ⟨_ | _ | _ | _, ⟨next, after⟩, events⟩ <;> rw [stepped, passAfter] at passed
      case error =>
        refine ⟨0, executed, Nat.zero_le _, ?_⟩
        rw [Action.run_iterate_of_error passed]
        rfl
      case ok.yield =>
        refine ⟨0, executed, Nat.zero_le _, ?_⟩
        rw [Action.run_iterate_of_some passed]
        rfl
      case ok.proceed =>
        have fewer : remaining + (⟨id, next :: below⟩ : Thread).depth < limit := by
          simp only [depth, List.length_cons]
          omega
        obtain ⟨passes, counted, few, rest⟩ :=
          inductionHypothesis (executed + 1) remaining _ after fewer
        refine ⟨passes + 1, counted, ?_, ?_⟩
        · simp only [depth, List.length_cons] at few ⊢
          omega
        · rw [Nat.add_assoc, Nat.add_comm 1] at rest
          rw [Action.run_iterate_of_none passed, rest, run_turn]
          dsimp only
          rcases turnOf id (next :: below) remaining after with ⟨_ | report, last, others⟩
          · rfl
          · simp [Except.map, Turn.after, Nat.add_assoc]
      case ok.endOfCode =>
        have fewer : remaining + 1 + (⟨id, below⟩ : Thread).depth < limit := by
          simp only [depth]
          omega
        obtain ⟨passes, counted, few, rest⟩ :=
          inductionHypothesis executed (remaining + 1) _ after fewer
        refine ⟨passes + 1, counted, ?_, ?_⟩
        · simp only [depth, List.length_cons] at few ⊢
          omega
        · rw [Action.run_iterate_of_none passed, rest, run_turn]
          dsimp only
          rcases turnOf id below (remaining + 1) after with ⟨_ | report, last, others⟩ <;>
            simp [Except.map]

/-- The loop ends after no more passes than the quantum allows instructions and the thread has
frames, and then it has done what the turn does. -/
theorem exists_passes (quantum : Nat) (thread : Thread) (heap : Heap) :
    ∃ passes counted, passes ≤ quantum + thread.depth ∧
      (Action.iterate (quantum + thread.depth + 1) (pass quantum)).run (0, thread, heap) =
        let outcome := (turn quantum).run (thread, heap)
        ⟨outcome.result.map fun report => (passes, some report), (counted, outcome.state),
          outcome.events⟩ := by
  obtain ⟨passes, counted, few, ended⟩ :=
    run_iterate_pass (quantum + thread.depth + 1) 0 quantum thread heap (Nat.lt_succ_self _)
  refine ⟨passes, counted, few, ?_⟩
  rw [Nat.zero_add] at ended
  rw [ended]
  simp only [Turn.after, Nat.zero_add]

end Thread

end BytecodeMachine
