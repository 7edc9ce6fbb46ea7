/-
This file says with which frame a thread starts and describes a turn of it by
the steps of its frames. What every step keeps is kept by a turn. A thread with
one frame is stuck when that frame is about to enter a monitor that another
thread holds: then its turn completes no instruction and changes nothing but
the offset that the frame remembers, and no other turn comes to so little.
-/

import BytecodeMachine.Proofs.Frame.Step
import BytecodeMachine.Thread

namespace BytecodeMachine

namespace Frame

/-! ### Stretches of steps -/

theorem attempt_runFor_zero (state : Frame × Heap) :
    (runFor 0).attempt state = (.ok ⟨0, .quantumSpent⟩, state) := by
  rw [runFor_zero, Action.attempt_pure]

theorem attempt_runFor_succ (quantum : Nat) (state : Frame × Heap) :
    (runFor (quantum + 1)).attempt state =
      match step.attempt state with
      | (.ok .proceed, reached) =>
        (((runFor quantum).attempt reached).1.map fun rest =>
          { rest with executed := rest.executed + 1 }, ((runFor quantum).attempt reached).2)
      | (.ok .yield, reached) => (.ok ⟨0, .blocked⟩, reached)
      | (.ok .endOfCode, reached) => (.ok ⟨0, .endOfCode⟩, reached)
      | (.error fault, reached) => (.error fault, reached) := by
  rw [runFor_succ, Action.attempt_bind]
  rcases step.attempt state with ⟨_ | signal, reached⟩
  · rfl
  · cases signal
    · simp only [Action.attempt_bind]
      rcases (runFor quantum).attempt reached with ⟨_ | rest, last⟩ <;> rfl
    · rfl
    · rfl

theorem keeps_runFor {property : Frame × Heap → Prop} (kept : step.Keeps property)
    (quantum : Nat) : (runFor quantum).Keeps property := by
  induction quantum with
  | zero =>
    rw [runFor_zero]
    exact Action.Keeps.pure _
  | succ quantum inductionHypothesis =>
    rw [runFor_succ]
    refine Action.Keeps.bind kept fun signal => ?_
    cases signal
    · exact Action.Keeps.bind inductionHypothesis fun _ => Action.Keeps.pure _
    · exact Action.Keeps.pure _
    · exact Action.Keeps.pure _

/-- What the last step of a stretch has answered, if that is what ended the stretch. -/
def lastAnswer? : Except Fault Stretch → Option (Except Fault Signal)
  | .ok ⟨_, .quantumSpent⟩ => none
  | .ok ⟨_, .blocked⟩ => some (.ok .yield)
  | .ok ⟨_, .endOfCode⟩ => some (.ok .endOfCode)
  | .error fault => some (.error fault)

/-- A stretch that is not ended by its quantum comes to a step that ends it, and what steps keep
still holds before that step. -/
theorem exists_last_step {property : Frame × Heap → Prop} (kept : step.Keeps property)
    {quantum : Nat} {state later : Frame × Heap} {result : Except Fault Stretch}
    {answer : Except Fault Signal} (holds : property state)
    (ran : (runFor quantum).attempt state = (result, later))
    (last : lastAnswer? result = some answer) :
    ∃ reached, property reached ∧ step.attempt reached = (answer, later) := by
  induction quantum generalizing state result with
  | zero =>
    cases (attempt_runFor_zero state).symm.trans ran
    cases last
  | succ quantum inductionHypothesis =>
    have next := kept state holds
    rw [attempt_runFor_succ] at ran
    rcases outcome : step.attempt state with ⟨_ | _ | _ | _, reached⟩ <;>
      simp only [outcome] at ran next
    case ok.proceed =>
      rcases rested : (runFor quantum).attempt reached with ⟨_ | ⟨count, _ | _ | _⟩, final⟩ <;>
        rw [rested] at ran <;> cases ran <;> exact inductionHypothesis next rested last
    all_goals
      cases ran
      cases last
      exact ⟨state, holds, outcome⟩

/-- A stretch completes no more instructions than it was allowed. -/
theorem executed_le_of_runFor {quantum : Nat} {state : Frame × Heap} {stretch : Stretch}
    (success : ((runFor quantum).attempt state).1 = .ok stretch) : stretch.executed ≤ quantum := by
  induction quantum generalizing state stretch with
  | zero =>
    rw [attempt_runFor_zero] at success
    cases success
    exact Nat.le_refl 0
  | succ quantum inductionHypothesis =>
    rw [attempt_runFor_succ] at success
    rcases outcome : step.attempt state with ⟨_ | _ | _ | _, reached⟩ <;> rw [outcome] at success
    case ok.proceed =>
      obtain ⟨rest, rested, rfl⟩ := Except.exists_of_map_eq_ok success
      exact Nat.succ_le_succ (inductionHypothesis rested)
    case ok.yield | ok.endOfCode =>
      cases success
      exact Nat.zero_le _
    case error => cases success

end Frame

namespace Thread

/-! ### Threads with one frame -/

/-- A thread of a scheduler is in order when it has at most one frame and that is in order. -/
structure WellFormed (thread : Thread) : Prop where
  depth_le : thread.depth ≤ 1
  frame_wellFormed : ∀ frame ∈ thread.frames, frame.WellFormed thread.id

/-- A method with arguments that fit starts a thread at the beginning of its code. -/
theorem attempt_pushFrame_start (id : ThreadId) (method : Method) (arguments : List Value) :
    (pushFrame method arguments).attempt (start id) =
      match (Locals.lay 0 arguments).attempt (Locals.blank method.maxLocals) with
      | (.ok _, locals) =>
        (.ok (), ⟨id, [⟨id, 0, .start method.code, locals, .empty method.maxStack⟩]⟩)
      | (.error fault, _) => (.error fault, start id) := by
  rw [pushFrame, Action.attempt_bind_of_ok _ (Action.attempt_get _), Frame.create,
    Locals.create, bind_assoc, Action.attempt_bind, Action.attempt_build]
  rcases (Locals.lay 0 arguments).attempt (Locals.blank method.maxLocals) with
    ⟨_ | _, locals⟩ <;> rfl

theorem exists_frame_of_pushFrame {id : ThreadId} {method : Method} {arguments : List Value}
    {thread : Thread}
    (started : (pushFrame method arguments).attempt (start id) = (.ok (), thread)) :
    ∃ frame, thread = ⟨id, [frame]⟩ ∧ frame.WellFormed id := by
  rw [attempt_pushFrame_start] at started
  split at started <;> cases started
  exact ⟨_, rfl, rfl, OperandStack.wellFormed_empty _, Nat.zero_le _⟩

theorem wellFormed_of_pushFrame {id : ThreadId} {method : Method} {arguments : List Value}
    {thread : Thread}
    (started : (pushFrame method arguments).attempt (start id) = (.ok (), thread)) :
    thread.WellFormed := by
  obtain ⟨frame, rfl, inOrder⟩ := exists_frame_of_pushFrame started
  exact ⟨Nat.le_refl 1, List.forall_mem_singleton.mpr inOrder⟩

/-! ### Turns of threads with one frame -/

/-- The turn of a thread with one frame is the stretch of that frame, which is dropped at the
end of its code. -/
theorem attempt_turn_of_single (quantum : Nat) (id : ThreadId) (frame : Frame) (heap : Heap) :
    (turn quantum).attempt (⟨id, [frame]⟩, heap) =
      match (Frame.runFor quantum).attempt (frame, heap) with
      | (.error fault, (frame, heap)) => (.error fault, (⟨id, [frame]⟩, heap))
      | (.ok ⟨executed, .quantumSpent⟩, (frame, heap)) =>
        (.ok ⟨executed, .runnable⟩, (⟨id, [frame]⟩, heap))
      | (.ok ⟨executed, .blocked⟩, (frame, heap)) =>
        (.ok ⟨executed, .waitingForMonitor⟩, (⟨id, [frame]⟩, heap))
      | (.ok ⟨executed, .endOfCode⟩, (_, heap)) =>
        (.ok ⟨executed, .terminated⟩, (⟨id, []⟩, heap)) := by
  simp only [Action.attempt, Action.run, turn, turnOf]
  rcases Frame.runFor quantum (frame, heap) with
    ⟨_ | ⟨executed, _ | _ | _⟩, ⟨frame, heap⟩, events⟩ <;> rfl

/-- What steps keep of frames and heap is kept by a turn, and no frame is added. -/
theorem keeps_turnOf {thread : ThreadId} {property : Frame → Prop} {other : Heap → Prop}
    (kept : Frame.step.Keeps fun state => property state.1 ∧ other state.2)
    (frames : List Frame) (quantum : Nat) (heap : Heap)
    (allHold : ∀ frame ∈ frames, property frame) (holds : other heap) :
    (∀ frame ∈ (turnOf thread frames quantum heap).state.1, property frame) ∧
      (turnOf thread frames quantum heap).state.1.length ≤ frames.length ∧
      other (turnOf thread frames quantum heap).state.2 := by
  induction frames generalizing quantum heap with
  | nil => exact ⟨allHold, Nat.le_refl _, holds⟩
  | cons frame below inductionHypothesis =>
    rw [List.forall_mem_cons] at allHold
    have stretch := Frame.keeps_runFor kept quantum (frame, heap) ⟨allHold.1, holds⟩
    rcases outcome : (Frame.runFor quantum).run (frame, heap) with
      ⟨_ | ⟨executed, _ | _ | _⟩, ⟨reached, after⟩, events⟩ <;>
      rw [Action.attempt_of_run outcome] at stretch <;> simp only [turnOf, outcome]
    case ok.endOfCode =>
      obtain ⟨stillHold, noMore, still⟩ :=
        inductionHypothesis (quantum - executed) after allHold.2 stretch.2
      exact ⟨stillHold, Nat.le_succ_of_le noMore, still⟩
    all_goals
      exact ⟨List.forall_mem_cons.mpr ⟨stretch.1, allHold.2⟩, Nat.le_refl _, stretch.2⟩

theorem keeps_turn (id : ThreadId) {property : Frame → Prop} {other : Heap → Prop}
    (kept : Frame.step.Keeps fun state => property state.1 ∧ other state.2) (quantum : Nat) :
    (turn quantum).Keeps fun state =>
      (state.1.id = id ∧ state.1.depth ≤ 1 ∧ ∀ frame ∈ state.1.frames, property frame) ∧
        other state.2 := by
  rintro ⟨thread, heap⟩ ⟨⟨rfl, short, allHold⟩, holds⟩
  obtain ⟨stillHold, noMore, still⟩ :=
    keeps_turnOf kept thread.frames quantum heap allHold holds
  exact ⟨⟨rfl, Nat.le_trans noMore short, stillHold⟩, still⟩

theorem keeps_turn_wellFormed (quantum : Nat) :
    (turn quantum).Keeps fun state => state.1.WellFormed := by
  intro state wellFormed
  have step := @Frame.keeps_step state.1.id (fun _ => True) (fun _ _ _ => trivial)
    fun _ _ _ => trivial
  have kept := @keeps_turn state.1.id _ (fun _ => True) step quantum state
  obtain ⟨⟨sameName, short, inOrder⟩, -⟩ :=
    kept ⟨⟨rfl, wellFormed.depth_le, wellFormed.frame_wellFormed⟩, trivial⟩
  exact ⟨short, sameName ▸ inOrder⟩

/-- Whatever comes of a turn, no other thread notices. -/
theorem sameFor_turn {thread : Thread} (wellFormed : thread.WellFormed) {other : ThreadId}
    (distinct : other ≠ thread.id) (quantum : Nat) (heap : Heap) :
    Heap.SameFor other heap ((turn quantum).attempt (thread, heap)).2.2 := by
  have entering (reference : ObjectRef) :
      (Heap.enter reference thread.id).Keeps (Heap.SameFor other heap) :=
    fun next same => same.trans (Heap.sameFor_enter distinct next reference)
  have leaving (reference : ObjectRef) :
      (Heap.exit reference thread.id).Keeps (Heap.SameFor other heap) :=
    fun next same => same.trans (Heap.sameFor_exit distinct next reference)
  have kept := keeps_turn thread.id (Frame.keeps_step entering leaving) quantum (thread, heap)
  exact (kept ⟨⟨rfl, wellFormed.depth_le, wellFormed.frame_wellFormed⟩,
    Heap.SameFor.refl other heap⟩).2

/-! ### What a turn reports -/

/-- Frames that had a turn have terminated exactly when none of them is left. -/
theorem state_eq_terminated_iff_of_turnOf {id : ThreadId} {frames : List Frame} {quantum : Nat}
    {heap : Heap} {turn : Turn} (success : (turnOf id frames quantum heap).result = .ok turn) :
    turn.state = .terminated ↔ (turnOf id frames quantum heap).state.1 = [] := by
  induction frames generalizing quantum heap turn with
  | nil =>
    cases success
    exact ⟨fun _ => rfl, fun _ => rfl⟩
  | cons frame below inductionHypothesis =>
    rcases outcome : (Frame.runFor quantum).run (frame, heap) with
      ⟨_ | ⟨executed, _ | _ | _⟩, ⟨reached, after⟩, events⟩ <;>
      simp only [turnOf, outcome] at success ⊢
    case error => cases success
    case ok.endOfCode =>
      obtain ⟨rest, rested, rfl⟩ := Except.exists_of_map_eq_ok success
      have below := inductionHypothesis rested
      exact below
    all_goals
      cases success
      simp

theorem state_eq_terminated_iff {thread reached : Thread} {heap after : Heap} {quantum : Nat}
    {turn : Turn}
    (turned : (Thread.turn quantum).attempt (thread, heap) = (.ok turn, (reached, after))) :
    turn.state = .terminated ↔ reached.isTerminated := by
  have result : (turnOf thread.id thread.frames quantum heap).result = .ok turn :=
    congrArg Prod.fst turned
  have frames : (turnOf thread.id thread.frames quantum heap).state.1 = reached.frames :=
    congrArg (fun outcome => outcome.2.1.frames) turned
  rw [isTerminated, List.isEmpty_iff, ← frames]
  exact state_eq_terminated_iff_of_turnOf result

theorem executed_le_of_turnOf {id : ThreadId} {frames : List Frame} {quantum : Nat} {heap : Heap}
    {turn : Turn} (success : (turnOf id frames quantum heap).result = .ok turn) :
    turn.executed ≤ quantum := by
  induction frames generalizing quantum heap turn with
  | nil =>
    cases success
    exact Nat.zero_le quantum
  | cons frame below inductionHypothesis =>
    have stretched := @Frame.executed_le_of_runFor quantum (frame, heap)
    rcases outcome : (Frame.runFor quantum).run (frame, heap) with
      ⟨_ | ⟨executed, _ | _ | _⟩, ⟨reached, after⟩, events⟩ <;>
      rw [Action.attempt_of_run outcome] at stretched <;> simp only [turnOf, outcome] at success
    case error => cases success
    case ok.endOfCode =>
      obtain ⟨rest, rested, rfl⟩ := Except.exists_of_map_eq_ok success
      have allowed : executed ≤ quantum := stretched rfl
      have remaining := inductionHypothesis rested
      show executed + rest.executed ≤ quantum
      omega
    all_goals
      cases success
      exact stretched rfl

/-- A turn completes no more instructions than the quantum. -/
theorem executed_le {thread : Thread} {heap : Heap} {later : Thread × Heap} {quantum : Nat}
    {turn : Turn} (turned : (Thread.turn quantum).attempt (thread, heap) = (.ok turn, later)) :
    turn.executed ≤ quantum :=
  executed_le_of_turnOf (congrArg Prod.fst turned)

/-! ### Stuck threads -/

/-- A thread is stuck against a heap when its current frame is about to enter the monitor of an
object that is locked by another thread. -/
def StuckAgainst (thread : Thread) (heap : Heap) : Prop :=
  ∃ frame reference owner, thread.current? = some frame ∧ frame.AboutToEnter reference ∧
    heap.LockedBy reference.index.toNat owner ∧ owner ≠ thread.id

instance (thread : Thread) (heap : Heap) : Decidable (thread.StuckAgainst heap) :=
  decidable_of_iff (thread.current?.any fun frame => frame.awaited?.any fun reference =>
    (heap.monitorAt reference.index.toNat).any (·.owner ≠ thread.id)) (by
    simp only [Option.any_eq_true, Frame.awaited?_eq_some_iff, decide_eq_true_eq]
    constructor
    · rintro ⟨frame, current, reference, entering, monitor, locked, other⟩
      exact ⟨frame, reference, _, current, entering, ⟨monitor, locked, rfl⟩, other⟩
    · rintro ⟨frame, reference, _, current, entering, ⟨monitor, locked, rfl⟩, other⟩
      exact ⟨frame, current, reference, entering, monitor, locked, other⟩)

/-- The thread whose frames remember the offset of their next instruction. -/
def rewound (thread : Thread) : Thread :=
  { thread with frames := thread.frames.map Frame.rewound }

/-- A thread in order has terminated or has a single frame. -/
theorem WellFormed.frames_eq {thread : Thread} (wellFormed : thread.WellFormed) :
    thread.frames = [] ∨ ∃ frame, thread.frames = [frame] ∧ frame.WellFormed thread.id := by
  obtain ⟨id, frames⟩ := thread
  obtain ⟨short, inOrder⟩ := wellFormed
  match frames with
  | [] => exact Or.inl rfl
  | [frame] => exact Or.inr ⟨frame, rfl, inOrder frame List.mem_cons_self⟩
  | _ :: _ :: _ => exact absurd short (by simp [depth])

theorem stuckAgainst_iff {id : ThreadId} {frame : Frame} {heap : Heap}
    (wellFormed : frame.WellFormed id) :
    StuckAgainst ⟨id, [frame]⟩ heap ↔ frame.Blocked heap := by
  rw [Frame.Blocked, wellFormed.thread_eq]
  constructor
  · rintro ⟨_, reference, owner, ⟨⟩, entering, locked, other⟩
    exact ⟨reference, owner, entering, locked, other⟩
  · rintro ⟨reference, owner, entering, locked, other⟩
    exact ⟨frame, reference, owner, rfl, entering, locked, other⟩

/-- The turn of a stuck thread completes nothing and leaves the heap as it is. -/
theorem attempt_turn_of_stuckAgainst {thread : Thread} {heap : Heap}
    (wellFormed : thread.WellFormed) (stuck : thread.StuckAgainst heap) (quantum : Nat) :
    (turn (quantum + 1)).attempt (thread, heap) =
      (.ok ⟨0, .waitingForMonitor⟩, (thread.rewound, heap)) := by
  obtain ⟨id, frames⟩ := thread
  obtain none | ⟨frame, single, inOrder⟩ := wellFormed.frames_eq
  · obtain ⟨_, _, _, current, -⟩ := stuck
    cases none
    cases current
  · cases single
    have blocked := (stuckAgainst_iff inOrder).mp stuck
    rw [attempt_turn_of_single, Frame.attempt_runFor_succ,
      Frame.attempt_step_of_blocked inOrder blocked]
    rfl

/-- A turn that completes no instruction and does not end the thread is that of a stuck one. -/
theorem stuckAgainst_of_idle {thread : Thread} {heap : Heap} {quantum : Nat} {turn : Turn}
    {later : Thread × Heap} (wellFormed : thread.WellFormed)
    (turned : (Thread.turn (quantum + 1)).attempt (thread, heap) = (.ok turn, later))
    (idle : turn.executed = 0) (alive : turn.state ≠ .terminated) : thread.StuckAgainst heap := by
  obtain ⟨id, frames⟩ := thread
  obtain none | ⟨frame, single, inOrder⟩ := wellFormed.frames_eq
  · cases none
    cases turned
    exact absurd rfl alive
  · cases single
    rw [attempt_turn_of_single, Frame.attempt_runFor_succ] at turned
    rcases outcome : Frame.step.attempt (frame, heap) with ⟨_ | _ | _ | _, reached⟩ <;>
      simp only [outcome] at turned
    case ok.proceed =>
      rcases rest : (Frame.runFor quantum).attempt reached with
        ⟨_ | ⟨executed, _ | _ | _⟩, last⟩ <;> rw [rest] at turned <;> cases turned <;> cases idle
    case ok.yield => exact (stuckAgainst_iff inOrder).mpr (Frame.blocked_of_yield outcome)
    case ok.endOfCode =>
      cases turned
      exact absurd rfl alive
    case error => cases turned

end Thread

end BytecodeMachine
