/-
This file cuts a turn in two. Main statement: a turn is the same as a turn of a
smaller quantum and, if that leaves the thread runnable, another turn with what
remains of the quantum; if it leaves the thread waiting or terminated, or fails,
it is the whole turn already.

So nothing is hidden in the end of a turn, not even where the quantum is spent
with the last instruction of a frame: that frame is dropped at the beginning of
the next turn, which costs nothing of its quantum.
-/

import BytecodeMachine.Proofs.Thread.Turn

namespace BytecodeMachine

/-! ### Stretches -/

namespace Frame

/-- A stretch is a shorter one and, if that is not stopped early, another one. -/
theorem runFor_add (first second : Nat) :
    runFor (first + second) = (do
      let stretch ← runFor first
      match stretch.stop with
      | .quantumSpent =>
        let rest ← runFor second
        return { rest with executed := stretch.executed + rest.executed }
      | .blocked | .endOfCode => return stretch) := by
  induction first with
  | zero => simp [runFor_zero]
  | succ first inductionHypothesis =>
    rw [Nat.succ_add, runFor_succ, runFor_succ, bind_assoc]
    refine congrArg _ (funext fun signal => ?_)
    cases signal with
    | proceed =>
      simp only [inductionHypothesis, bind_assoc, pure_bind]
      refine congrArg _ (funext fun stretch => ?_)
      obtain ⟨executed, stop⟩ := stretch
      cases stop <;> simp [Nat.add_right_comm]
    | yield => simp
    | endOfCode => simp

/-- A stretch that is not stopped early executes as many instructions as it is allowed. -/
theorem executed_eq_of_quantumSpent {quantum executed : Nat} {state : Frame × Heap}
    (spent : ((runFor quantum).attempt state).1 = .ok ⟨executed, .quantumSpent⟩) :
    executed = quantum := by
  induction quantum generalizing state executed with
  | zero =>
    rw [attempt_runFor_zero] at spent
    cases spent
    rfl
  | succ quantum inductionHypothesis =>
    rw [attempt_runFor_succ] at spent
    rcases outcome : step.attempt state with ⟨_ | _ | _ | _, reached⟩ <;> rw [outcome] at spent
    case ok.proceed =>
      obtain ⟨⟨count, stop⟩, rested, same⟩ := Except.exists_of_map_eq_ok spent
      cases same
      rw [inductionHypothesis rested]
    all_goals cases spent

/-- A stretch that is stopped early has not executed as many instructions as it is allowed. -/
theorem executed_lt_of_stopped {quantum : Nat} {state : Frame × Heap} {stretch : Stretch}
    (stretched : ((runFor quantum).attempt state).1 = .ok stretch)
    (early : stretch.stop ≠ .quantumSpent) : stretch.executed < quantum := by
  induction quantum generalizing state stretch with
  | zero =>
    rw [attempt_runFor_zero] at stretched
    cases stretched
    exact absurd rfl early
  | succ quantum inductionHypothesis =>
    rw [attempt_runFor_succ] at stretched
    rcases outcome : step.attempt state with ⟨_ | _ | _ | _, reached⟩ <;> rw [outcome] at stretched
    case ok.proceed =>
      obtain ⟨rest, rested, rfl⟩ := Except.exists_of_map_eq_ok stretched
      exact Nat.succ_lt_succ (inductionHypothesis rested early)
    case error => cases stretched
    all_goals
      cases stretched
      exact Nat.succ_pos quantum

end Frame

/-! ### Turns -/

/-- What the turn amounts to as a whole when instructions were completed before. -/
def Turn.after (executed : Nat) (turn : Turn) : Turn :=
  { turn with executed := executed + turn.executed }

theorem Turn.map_after_map_after (first second : Nat) (result : Except Fault Turn) :
    (result.map (Turn.after second)).map (Turn.after first) =
      result.map (Turn.after (first + second)) := by
  cases result with
  | error fault => rfl
  | ok turn => simp [Except.map, Turn.after, Nat.add_assoc]

theorem Turn.map_after_zero (result : Except Fault Turn) : result.map (Turn.after 0) = result := by
  cases result with
  | error fault => rfl
  | ok turn => simp [Except.map, Turn.after]

namespace Thread

/-- A frame that comes to the end of its code leaves the rest of the quantum to those below. -/
theorem turnOf_of_endOfCode {quantum executed : Nat} {frame next : Frame} {heap after : Heap}
    {events : List Event}
    (ended : (Frame.runFor quantum).run (frame, heap) =
      ⟨.ok ⟨executed, .endOfCode⟩, (next, after), events⟩)
    (id : ThreadId) (below : List Frame) :
    turnOf id (frame :: below) quantum heap =
      let rest := turnOf id below (quantum - executed) after
      ⟨rest.result.map (Turn.after executed), rest.state,
        events ++ .frameLeft id below.length :: rest.events⟩ := by
  simp only [turnOf, ended]
  rfl

/-- Frames that a turn leaves runnable go on in another turn; otherwise a larger quantum makes no
difference. The induction is on the frames, which are dropped from the first turn one by one. -/
theorem turnOf_add (id : ThreadId) (frames : List Frame) (first second : Nat) (heap : Heap) :
    turnOf id frames (first + second) heap =
      match turnOf id frames first heap with
      | ⟨.ok ⟨executed, .runnable⟩, (frames, heap), events⟩ =>
        let rest := turnOf id frames second heap
        ⟨rest.result.map (Turn.after executed), rest.state, events ++ rest.events⟩
      | outcome => outcome := by
  induction frames generalizing first heap with
  | nil => rfl
  | cons frame below inductionHypothesis =>
    have whole := congrArg (Action.run · (frame, heap)) (Frame.runFor_add first second)
    rcases stretched : (Frame.runFor first).run (frame, heap) with
      ⟨_ | ⟨executed, _ | _ | _⟩, ⟨next, after⟩, events⟩ <;>
      have result := congrArg Outcome.result stretched <;>
      simp only [Action.run_bind, stretched, Action.run_pure, List.append_nil] at whole
    case error | ok.blocked => simp only [turnOf, whole, stretched]
    case ok.quantumSpent =>
      cases Frame.executed_eq_of_quantumSpent result
      have begun : turnOf id (frame :: below) first heap =
          ⟨.ok ⟨first, .runnable⟩, (next :: below, after), events⟩ := by
        simp only [turnOf, stretched]
      simp only [begun]
      -- the frame may come to the end of its code in the second turn
      rcases rested : (Frame.runFor second).run (next, after) with
        ⟨_ | ⟨count, _ | _ | _⟩, ⟨last, final⟩, more⟩ <;> simp only [rested] at whole
      case ok.endOfCode =>
        rw [turnOf_of_endOfCode whole, turnOf_of_endOfCode rested, Nat.add_sub_add_left]
        simp only [Turn.map_after_map_after, List.append_assoc]
      all_goals
        simp only [turnOf, whole, rested]
        rfl
    case ok.endOfCode =>
      have allowed : executed ≤ first := Frame.executed_le_of_runFor result
      rw [turnOf_of_endOfCode whole, turnOf_of_endOfCode stretched, Nat.sub_add_comm allowed,
        inductionHypothesis]
      rcases turnOf id below (first - executed) after with
        ⟨_ | ⟨count, _ | _ | _⟩, ⟨last, final⟩, more⟩
      case ok.runnable =>
        simp only [Turn.map_after_map_after]
        simp [Except.map, Turn.after]
      all_goals rfl

theorem run_turn (quantum : Nat) (id : ThreadId) (frames : List Frame) (heap : Heap) :
    (turn quantum).run (⟨id, frames⟩, heap) =
      let outcome := turnOf id frames quantum heap
      ⟨outcome.result, (⟨id, outcome.state.1⟩, outcome.state.2), outcome.events⟩ := rfl

/-- A turn is a turn of a smaller quantum and, if that leaves the thread runnable, another turn
with what remains of the quantum. -/
theorem turn_add (first second : Nat) :
    turn (first + second) = (do
      let begun ← turn first
      match begun.state with
      | .runnable => Turn.after begun.executed <$> turn second
      | .waitingForMonitor | .terminated => return begun) := by
  funext ⟨⟨id, frames⟩, heap⟩
  change (turn (first + second)).run (⟨id, frames⟩, heap) = Action.run _ (⟨id, frames⟩, heap)
  rw [Action.run_bind, run_turn, run_turn, turnOf_add]
  rcases turnOf id frames first heap with
    ⟨_ | ⟨executed, _ | _ | _⟩, ⟨frames, after⟩, events⟩
  case ok.runnable => simp only [Action.run_map, run_turn]
  all_goals simp only [Action.run_pure, List.append_nil]

theorem attempt_turn_add_of_runnable {first executed : Nat} {state reached : Thread × Heap}
    (begun : (turn first).attempt state = (.ok ⟨executed, .runnable⟩, reached)) (second : Nat) :
    (turn (first + second)).attempt state =
      (((turn second).attempt reached).1.map (Turn.after executed),
        ((turn second).attempt reached).2) := by
  rw [turn_add, Action.attempt_bind_of_ok _ begun, Action.attempt_map]

theorem attempt_turn_add_of_not_runnable {first : Nat} {state : Thread × Heap}
    (stopped : ∀ executed, ((turn first).attempt state).1 ≠ .ok ⟨executed, .runnable⟩)
    (second : Nat) : (turn (first + second)).attempt state = (turn first).attempt state := by
  rw [turn_add, Action.attempt_bind]
  rcases begun : (turn first).attempt state with ⟨_ | ⟨executed, _ | _ | _⟩, reached⟩
  case ok.runnable => exact absurd (congrArg Prod.fst begun) (stopped executed)
  all_goals rfl

/-! ### How many instructions a turn completes -/

theorem executed_eq_of_turnOf_runnable {id : ThreadId} {frames : List Frame} {quantum : Nat}
    {heap : Heap} {executed : Nat}
    (success : (turnOf id frames quantum heap).result = .ok ⟨executed, .runnable⟩) :
    executed = quantum := by
  induction frames generalizing quantum heap executed with
  | nil => cases success
  | cons frame below inductionHypothesis =>
    rcases stretched : (Frame.runFor quantum).run (frame, heap) with
      ⟨_ | ⟨count, _ | _ | _⟩, ⟨next, after⟩, events⟩ <;>
      have result := congrArg Outcome.result stretched
    case ok.endOfCode =>
      rw [turnOf_of_endOfCode stretched] at success
      obtain ⟨⟨rest, state⟩, rested, same⟩ := Except.exists_of_map_eq_ok success
      cases same
      have allowed : count ≤ quantum := Frame.executed_le_of_runFor result
      rw [inductionHypothesis rested, Nat.add_sub_cancel' allowed]
    all_goals simp only [turnOf, stretched] at success
    case ok.quantumSpent =>
      cases success
      exact Frame.executed_eq_of_quantumSpent result
    all_goals cases success

/-- A thread that is still runnable has completed as many instructions as its turn allowed. -/
theorem executed_eq_of_runnable {quantum executed : Nat} {state reached : Thread × Heap}
    (turned : (turn quantum).attempt state = (.ok ⟨executed, .runnable⟩, reached)) :
    executed = quantum :=
  executed_eq_of_turnOf_runnable (congrArg Prod.fst turned)

theorem executed_lt_of_turnOf_terminated {id : ThreadId} {frames : List Frame}
    (inhabited : frames ≠ []) {quantum : Nat} {heap : Heap} {executed : Nat}
    (success : (turnOf id frames quantum heap).result = .ok ⟨executed, .terminated⟩) :
    executed < quantum := by
  induction frames generalizing quantum heap executed with
  | nil => exact absurd rfl inhabited
  | cons frame below inductionHypothesis =>
    rcases stretched : (Frame.runFor quantum).run (frame, heap) with
      ⟨_ | ⟨count, _ | _ | _⟩, ⟨next, after⟩, events⟩
    case ok.endOfCode =>
      have short : count < quantum :=
        Frame.executed_lt_of_stopped (congrArg Outcome.result stretched) nofun
      rw [turnOf_of_endOfCode stretched] at success
      obtain ⟨⟨rest, state⟩, rested, same⟩ := Except.exists_of_map_eq_ok success
      cases same
      cases below with
      | nil =>
        cases rested
        exact short
      | cons _ _ => exact Nat.add_lt_of_lt_sub' (inductionHypothesis nofun rested)
    all_goals
      simp only [turnOf, stretched] at success
      cases success

/-- A thread that a turn ends has not completed as many instructions as the turn allowed: the
quantum has to reach beyond the last instruction for the frame to be dropped. -/
theorem executed_lt_of_terminated {quantum executed : Nat} {thread : Thread} {heap : Heap}
    {later : Thread × Heap} (alive : thread.isTerminated = false)
    (turned : (turn quantum).attempt (thread, heap) = (.ok ⟨executed, .terminated⟩, later)) :
    executed < quantum :=
  executed_lt_of_turnOf_terminated (List.isEmpty_eq_false_iff.mp alive) (congrArg Prod.fst turned)

/-! ### Turns split and join -/

/-- If a turn leaves a thread runnable, a turn with a larger quantum is that turn and then another
one with what remains of the quantum: it ends with the same fault or in the same state, with the
same frames and heap, and has the instructions and the events of both. If a turn fails or leaves
the thread waiting or terminated, a turn with a larger quantum is the same. -/
theorem turns_split_and_join (thread : Thread) (heap : Heap) (first second : Nat) :
    let begun := (turn first).run (thread, heap)
    let whole := (turn (first + second)).run (thread, heap)
    (∀ executed, begun.result = .ok ⟨executed, .runnable⟩ →
      let rest := (turn second).run begun.state
      whole = ⟨rest.result.map fun turn => { turn with executed := executed + turn.executed },
        rest.state, begun.events ++ rest.events⟩) ∧
    ((∀ executed, begun.result ≠ .ok ⟨executed, .runnable⟩) → whole = begun) := by
  simp only [turn_add, Action.run_bind]
  rcases (turn first).run (thread, heap) with ⟨_ | ⟨executed, _ | _ | _⟩, reached, events⟩
  case ok.runnable =>
    refine ⟨?_, fun stopped => absurd rfl (stopped executed)⟩
    rintro _ ⟨⟩
    simp only [Action.run_map]
    rfl
  all_goals
    refine ⟨nofun, fun _ => ?_⟩
    simp only [Action.run_pure, List.append_nil]

/-- A thread that runs two instructions in its current frame and one in the frame below. -/
def nested : Thread :=
  let frame (code : Array UInt8) : Frame := ⟨⟨3⟩, 0, .start code, .blank 0, .empty 0⟩
  ⟨⟨3⟩, [frame #[0x00, 0x00], frame #[0x00]]⟩

/-- The quantum of the first turn is spent with the last instruction of the current frame. -/
theorem nested_split_and_join :
    let begun := (turn 2).run (nested, .empty 1)
    let rest := (turn 2).run begun.state
    begun.result = .ok ⟨2, .runnable⟩ ∧ rest.result = .ok ⟨1, .terminated⟩ ∧
      begun.state.1.depth = 2 ∧
      (turn (2 + 2)).run (nested, .empty 1) =
        ⟨.ok ⟨3, .terminated⟩, rest.state, begun.events ++ rest.events⟩ ∧
      (turn (4 + 5)).run (nested, .empty 1) = (turn 4).run (nested, .empty 1) := by
  intro begun rest
  have spent : begun.result = .ok ⟨2, .runnable⟩ := rfl
  have ended : rest.result = .ok ⟨1, .terminated⟩ := rfl
  have joined := (turns_split_and_join nested (.empty 1) 2 2).1 2 spent
  refine ⟨spent, ended, by decide +kernel, ?_, ?_⟩
  · rw [joined]
    exact congrArg (Outcome.mk · _ _) (congrArg _ ended)
  · have done : ((turn 4).run (nested, .empty 1)).result = .ok ⟨3, .terminated⟩ := rfl
    refine (turns_split_and_join nested (.empty 1) 4 5).2 fun executed runnable => ?_
    cases done.symm.trans runnable

end Thread

end BytecodeMachine
