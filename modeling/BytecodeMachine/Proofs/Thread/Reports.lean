/-
This file shows that what a turn reports is so. Main statement: for a thread
with any number of frames, a turn ends after a bounded number of passes and
leaves the frames at the bottom as they were, but for the one that ran last; the
state that it reports is the state in which it leaves the thread, and a thread
that is reported as waiting goes on waiting until another thread gives way.
-/

import BytecodeMachine.Proofs.Frame.Reachable
import BytecodeMachine.Proofs.Thread.Passes

namespace BytecodeMachine

/-! ### Stretches that end before a monitor -/

namespace Frame

/-- The frame is in order, stands before a monitor that another thread holds, and remembers where it
stands. -/
structure Halted (thread : ThreadId) (frame : Frame) (heap : Heap) : Prop where
  wellFormed : frame.WellFormed thread
  blocked : frame.Blocked heap
  rewound_eq : frame.rewound = frame

theorem halted_of_runFor {thread : ThreadId} {quantum executed : Nat} {frame next : Frame}
    {heap after : Heap} (wellFormed : frame.WellFormed thread)
    (stopped : (runFor quantum).attempt (frame, heap) =
      (.ok ⟨executed, .blocked⟩, (next, after))) : next.Halted thread after := by
  have kept : step.Keeps fun state => state.1.WellFormed thread := keeps_step_wellFormed
  obtain ⟨⟨reached, other⟩, inOrder, yields⟩ := exists_last_step kept wellFormed stopped rfl
  have blocked := blocked_of_yield yields
  cases (attempt_step_of_blocked inOrder blocked).symm.trans yields
  exact ⟨inOrder.rewound, blocked, rfl⟩

end Frame

namespace Thread

/-! ### Threads with any number of frames -/

/-- A thread that comes about from one without frames by pushing frames and by turns against any
heaps, whether these succeed or fail. -/
inductive Reachable : Thread → Prop
  | start (id : ThreadId) : Reachable (start id)
  | pushFrame {thread : Thread} (before : Reachable thread) (method : Method)
      (arguments : List Value) : Reachable ((pushFrame method arguments).attempt thread).2
  | turn {thread : Thread} (before : Reachable thread) (quantum : Nat) (heap : Heap) :
      Reachable ((turn quantum).attempt (thread, heap)).2.1

/-- All frames of the thread are in order. -/
def FramesWellFormed (thread : Thread) : Prop :=
  ∀ frame ∈ thread.frames, frame.WellFormed thread.id

theorem keeps_framesWellFormed_pushFrame (method : Method) (arguments : List Value) :
    (pushFrame method arguments).Keeps FramesWellFormed := by
  intro thread inOrder
  rw [pushFrame, Action.attempt_bind_of_ok _ (Action.attempt_get _), Action.attempt_bind]
  rcases created : (Frame.create thread.id method arguments).attempt thread with
    ⟨_ | frame, after⟩
  · have unchanged : after = thread := by
      rw [Frame.attempt_create] at created
      exact (congrArg Prod.snd created).symm
    exact unchanged ▸ inOrder
  · exact List.forall_mem_cons.mpr ⟨Frame.wellFormed_of_create created, inOrder⟩

theorem keeps_framesWellFormed_turn (quantum : Nat) :
    (turn quantum).Keeps fun state => state.1.FramesWellFormed := by
  rintro ⟨thread, heap⟩ inOrder
  have step := @Frame.keeps_step thread.id (fun _ => True) (fun _ _ _ => trivial)
    fun _ _ _ => trivial
  have kept := @keeps_turnOf thread.id _ (fun _ => True) step thread.frames quantum heap
  exact (kept inOrder trivial).1

theorem Reachable.framesWellFormed {thread : Thread} (reachable : thread.Reachable) :
    thread.FramesWellFormed := by
  induction reachable with
  | start id => exact nofun
  | pushFrame before method arguments inductionHypothesis =>
    exact keeps_framesWellFormed_pushFrame method arguments _ inductionHypothesis
  | turn before quantum heap inductionHypothesis =>
    exact keeps_framesWellFormed_turn quantum (_, heap) inductionHypothesis

/-! ### The frames after a turn -/

/-- Of frames that had a turn those at the bottom are left, and only the topmost of them may have
changed. -/
theorem exists_kept_of_turnOf (id : ThreadId) (frames : List Frame) (quantum : Nat)
    (heap : Heap) :
    let left := (turnOf id frames quantum heap).state.1
    ∃ kept, kept <:+ frames ∧ left.length = kept.length ∧ left.tail = kept.tail := by
  induction frames generalizing quantum heap with
  | nil => exact ⟨[], List.suffix_rfl, rfl, rfl⟩
  | cons frame below inductionHypothesis =>
    rcases stretched : (Frame.runFor quantum).run (frame, heap) with
      ⟨_ | ⟨executed, _ | _ | _⟩, ⟨next, after⟩, events⟩ <;> simp only [turnOf, stretched]
    case ok.endOfCode =>
      obtain ⟨kept, bottom, same⟩ := inductionHypothesis (quantum - executed) after
      exact ⟨kept, bottom.trans (List.suffix_cons frame below), same⟩
    all_goals exact ⟨frame :: below, List.suffix_rfl, rfl, rfl⟩

/-- Frames that a turn leaves waiting have not spent the quantum, and the current one of them has
halted before the monitor of another thread. -/
theorem halted_of_turnOf {id : ThreadId} {frames : List Frame} {quantum executed : Nat}
    {heap : Heap} (inOrder : ∀ frame ∈ frames, frame.WellFormed id)
    (waits : (turnOf id frames quantum heap).result = .ok ⟨executed, .waitingForMonitor⟩) :
    executed < quantum ∧ ∃ frame below, (turnOf id frames quantum heap).state.1 = frame :: below ∧
      frame.Halted id (turnOf id frames quantum heap).state.2 := by
  induction frames generalizing quantum heap executed with
  | nil => cases waits
  | cons frame below inductionHypothesis =>
    rw [List.forall_mem_cons] at inOrder
    rcases stretched : (Frame.runFor quantum).run (frame, heap) with
      ⟨_ | ⟨count, _ | _ | _⟩, ⟨next, after⟩, events⟩ <;>
      have attempted := Action.attempt_of_run stretched <;>
      simp only [turnOf, stretched] at waits ⊢
    case ok.blocked =>
      cases waits
      have early : Stop.blocked ≠ .quantumSpent := by decide
      have short : executed < quantum :=
        Frame.executed_lt_of_stopped (congrArg Prod.fst attempted) early
      exact ⟨short, next, below, rfl, Frame.halted_of_runFor inOrder.1 attempted⟩
    case ok.endOfCode =>
      obtain ⟨⟨rest, state⟩, rested, same⟩ := Except.exists_of_map_eq_ok waits
      cases same
      -- the frames below have what the dropped one left of the quantum
      obtain ⟨short, halted⟩ := inductionHypothesis inOrder.2 rested
      exact ⟨Nat.add_lt_of_lt_sub' short, halted⟩
    all_goals cases waits

/-! ### Threads that wait -/

/-- A thread whose current frame has halted does nothing in its turn. -/
theorem attempt_turn_of_halted {id : ThreadId} {frame : Frame} {heap : Heap}
    (halted : frame.Halted id heap) (below : List Frame) {quantum : Nat} (positive : 0 < quantum) :
    (turn quantum).attempt (⟨id, frame :: below⟩, heap) =
      (.ok ⟨0, .waitingForMonitor⟩, (⟨id, frame :: below⟩, heap)) := by
  obtain ⟨quantum, rfl⟩ := Nat.exists_eq_add_of_lt positive
  have yields := Frame.attempt_step_of_blocked halted.wellFormed halted.blocked
  rw [halted.rewound_eq] at yields
  rcases stepped : Frame.step.run (frame, heap) with ⟨result, ⟨next, after⟩, events⟩
  cases (Action.attempt_of_run stepped).symm.trans yields
  rw [Nat.zero_add, Action.attempt, run_turn, turnOf_succ, stepped]

theorem stuckAgainst_of_halted {id : ThreadId} {frame : Frame} {heap : Heap}
    (halted : frame.Halted id heap) (below : List Frame) :
    StuckAgainst ⟨id, frame :: below⟩ heap := by
  obtain ⟨reference, owner, entering, locked, other⟩ := halted.blocked
  exact ⟨frame, reference, owner, rfl, entering, locked, halted.wellFormed.thread_eq ▸ other⟩

/-! ### Reports -/

/-- What the report of a turn says is so of the thread and the heap that the turn left. -/
structure ReportHolds (quantum : Nat) (report : Turn) (thread : Thread) (heap : Heap) :
    Prop where
  executed_le : report.executed ≤ quantum
  terminated_iff : report.state = .terminated ↔ thread.frames = []
  runnable_iff : report.state = .runnable ↔ thread.frames ≠ [] ∧ report.executed = quantum
  executed_lt_of_waiting : report.state = .waitingForMonitor → report.executed < quantum
  stuck_of_waiting : report.state = .waitingForMonitor → thread.StuckAgainst heap
  idle_of_waiting : report.state = .waitingForMonitor → ∀ another, 0 < another →
    (turn another).attempt (thread, heap) = (.ok ⟨0, .waitingForMonitor⟩, (thread, heap))

theorem reportHolds_of_turn {thread after : Thread} {heap left : Heap} {quantum : Nat}
    {report : Turn} (inOrder : thread.FramesWellFormed)
    (turned : (turn quantum).attempt (thread, heap) = (.ok report, (after, left))) :
    ReportHolds quantum report after left := by
  have terminated := state_eq_terminated_iff turned
  rw [isTerminated, List.isEmpty_iff] at terminated
  have halted : report.state = .waitingForMonitor → report.executed < quantum ∧
      ∃ frame below, after = ⟨thread.id, frame :: below⟩ ∧ frame.Halted thread.id left := by
    obtain ⟨executed, state⟩ := report
    rintro rfl
    obtain ⟨short, frame, below, frames, halted⟩ :=
      halted_of_turnOf inOrder (congrArg Prod.fst turned)
    cases congrArg Prod.snd turned
    exact ⟨short, frame, below, congrArg _ frames, halted⟩
  constructor
  case executed_le => exact executed_le turned
  case terminated_iff => exact terminated
  case runnable_iff =>
    obtain ⟨executed, state⟩ := report
    constructor
    · rintro rfl
      have other : ThreadState.runnable ≠ .terminated := by decide
      exact ⟨mt terminated.mpr other, executed_eq_of_runnable turned⟩
    · rintro ⟨alive, spent⟩
      cases state with
      | runnable => rfl
      | waitingForMonitor => exact absurd spent (Nat.ne_of_lt (halted rfl).1)
      | terminated => exact absurd (terminated.mp rfl) alive
  case executed_lt_of_waiting => exact fun waits => (halted waits).1
  case stuck_of_waiting =>
    intro waits
    obtain ⟨-, frame, below, rfl, stands⟩ := halted waits
    exact stuckAgainst_of_halted stands below
  case idle_of_waiting =>
    intro waits another positive
    obtain ⟨-, frame, below, rfl, stands⟩ := halted waits
    exact attempt_turn_of_halted stands below positive

/-- What a turn reports is true. A turn of a thread with any number of frames, against any heap
and with any quantum, is over after at most as many passes as the quantum allows instructions and
the thread has frames. It leaves the frames at the bottom, of which only the topmost that is left
may have changed. If it succeeds, it has completed no more instructions than the quantum; it
reports that the thread has terminated exactly when no frame is left, and that it is runnable
exactly when a frame is left and the quantum is spent. Otherwise it reports that the thread waits;
then the quantum is not spent, the current frame is about to enter a monitor that another thread
holds, and another turn does nothing. -/
theorem turn_reports_truly {thread : Thread} (reachable : thread.Reachable) (heap : Heap)
    (quantum : Nat) :
    let outcome := (turn quantum).run (thread, heap)
    (∃ passes counted, passes ≤ quantum + thread.depth ∧
      (Action.iterate (quantum + thread.depth + 1) (pass quantum)).run (0, thread, heap) =
        ⟨outcome.result.map fun report => (passes, some report), (counted, outcome.state),
          outcome.events⟩) ∧
    outcome.state.1.id = thread.id ∧
    (∃ kept, kept <:+ thread.frames ∧ outcome.state.1.depth = kept.length ∧
      outcome.state.1.frames.tail = kept.tail) ∧
    ∀ report, outcome.result = .ok report →
      ReportHolds quantum report outcome.state.1 outcome.state.2 := by
  intro outcome
  refine ⟨exists_passes quantum thread heap, rfl, ?_, fun report success => ?_⟩
  · exact exists_kept_of_turnOf thread.id thread.frames quantum heap
  · exact reportHolds_of_turn reachable.framesWellFormed (Prod.ext success rfl)

/-- A frame that loads a reference and enters the monitor of its object. -/
def entering : Frame :=
  ⟨⟨2⟩, 0, .start #[0x2a, 0xc2], ⟨[.entry (.reference ⟨0⟩)]⟩, .empty 1⟩

/-- The frame when it has loaded the reference. -/
def loaded : Frame :=
  { entering with pc := 1, cursor := entering.cursor.skip 1, stack := ⟨[.reference ⟨0⟩], 1, 1⟩ }

/-- A heap with an object that another thread has locked. -/
def heldByAnother : Heap :=
  ⟨#[⟨"A", some ⟨⟨1⟩, 1⟩⟩], 1⟩

/-- A frame that does nothing is dropped, and the one below it waits. -/
theorem turn_reports_waiting :
    let before : Thread := ⟨⟨2⟩, [⟨⟨2⟩, 0, .start #[0x00], .blank 0, .empty 0⟩, entering]⟩
    before.Reachable ∧
    (turn 5).attempt (before, heldByAnother) =
      (.ok ⟨2, .waitingForMonitor⟩, (⟨⟨2⟩, [loaded]⟩, heldByAnother)) ∧
    StuckAgainst ⟨⟨2⟩, [loaded]⟩ heldByAnother ∧
    (turn 3).attempt (⟨⟨2⟩, [loaded]⟩, heldByAnother) =
      (.ok ⟨0, .waitingForMonitor⟩, (⟨⟨2⟩, [loaded]⟩, heldByAnother)) := by
  intro before
  have outer := (Reachable.start ⟨2⟩).pushFrame ⟨#[0x2a, 0xc2], 1, 1⟩ [.reference ⟨0⟩]
  have reachable : before.Reachable := outer.pushFrame ⟨#[0x00], 0, 0⟩ []
  have turned : (turn 5).attempt (before, heldByAnother) =
      (.ok ⟨2, .waitingForMonitor⟩, (⟨⟨2⟩, [loaded]⟩, heldByAnother)) := rfl
  have state : ((turn 5).run (before, heldByAnother)).state = _ := congrArg Prod.snd turned
  have holds :=
    (turn_reports_truly reachable heldByAnother 5).2.2.2 _ (congrArg Prod.fst turned)
  rw [state] at holds
  exact ⟨reachable, turned, holds.stuck_of_waiting rfl, holds.idle_of_waiting rfl 3 (by decide)⟩

end Thread

end BytecodeMachine
