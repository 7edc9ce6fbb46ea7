/-
This file shows that entering a monitor can be tried again and again. A frame
that meets the monitor of another thread yields, whatever else is on its operand
stack, and differs afterwards at most in the offset that it remembers. Main
statement: after any number of such steps, each against a heap of its own, the
next step is the one that the frame would have made at once.
-/

import BytecodeMachine.Proofs.Frame.Reachable

namespace BytecodeMachine.Frame

/-- The frame after a step against each of some heaps, one after the other. -/
def afterSteps (frame : Frame) : List Heap → Frame
  | [] => frame
  | heap :: later => afterSteps (step.attempt (frame, heap)).2.1 later

theorem afterSteps_append (frame : Frame) (earlier later : List Heap) :
    frame.afterSteps (earlier ++ later) = (frame.afterSteps earlier).afterSteps later := by
  induction earlier generalizing frame with
  | nil => rfl
  | cons heap rest inductionHypothesis => exact inductionHypothesis _

/-- An invariant is kept by any number of steps, whether they succeed or fail. -/
theorem Invariant.afterSteps {thread : ThreadId} {allowance : Allowance} {property : Frame → Prop}
    (invariant : Invariant thread allowance property) {frame : Frame} (holds : property frame)
    (heaps : List Heap) : property (frame.afterSteps heaps) := by
  induction heaps generalizing frame with
  | nil => exact holds
  | cons heap later inductionHypothesis =>
    exact inductionHypothesis (invariant.keeps_step_frame (frame, heap) holds)

theorem Blocked.isExhausted_eq_false {frame : Frame} {heap : Heap}
    (blocked : frame.Blocked heap) : frame.isExhausted = false := by
  obtain ⟨reference, owner, ⟨here, -⟩, -⟩ := blocked
  rw [isExhausted, Cursor.hasMore_of_peek? here]
  rfl

/-- What a frame waits for does not depend on the offset that it remembers. -/
theorem blocked_rewound_iff (frame : Frame) (heap : Heap) :
    frame.rewound.Blocked heap ↔ frame.Blocked heap :=
  Iff.rfl

/-- Steps that met the monitor of another thread have no part in the step after them. -/
theorem attempt_step_afterSteps {thread : ThreadId} {frame : Frame} {heaps : List Heap}
    (wellFormed : frame.WellFormed thread) (blocked : ∀ heap ∈ heaps, frame.Blocked heap)
    (heap : Heap) :
    step.attempt (frame.afterSteps heaps, heap) = step.attempt (frame, heap) := by
  induction heaps generalizing frame with
  | nil => rfl
  | cons first later inductionHypothesis =>
    rw [List.forall_mem_cons] at blocked
    have stillBlocked : ∀ heap ∈ later, frame.rewound.Blocked heap := fun heap member =>
      (blocked_rewound_iff frame heap).mpr (blocked.2 heap member)
    rw [afterSteps, attempt_step_of_blocked wellFormed blocked.1,
      inductionHypothesis wellFormed.rewound stillBlocked,
      attempt_step_rewound blocked.1.isExhausted_eq_false]

/-- A step that meets a monitor held by another thread yields. It leaves the heap as it is, and
the frame too but for the offset of the instruction, which the frame then remembers. So after any
number of such steps, against any heaps in which others hold the monitor, a step against any heap
is the one that the frame would have made in the first place. -/
theorem contended_enter_retried {frame : Frame} (reachable : frame.Reachable) :
    (∀ heap, frame.Blocked heap → step.attempt (frame, heap) =
      (.ok .yield, ({ frame with pc := frame.cursor.position }, heap))) ∧
    ∀ heaps, (∀ heap ∈ heaps, frame.Blocked heap) → ∀ heap,
      step.attempt (frame.afterSteps heaps, heap) = step.attempt (frame, heap) :=
  ⟨fun _ blocked => attempt_step_of_blocked reachable.wellFormed blocked,
    fun _ blocked heap => attempt_step_afterSteps reachable.wellFormed blocked heap⟩

/-- A frame with a full operand stack that is about to enter the monitor of an object. -/
def atMonitor : Frame :=
  ⟨⟨2⟩, 0, .start #[0xc2], .blank 0, ⟨[.reference ⟨0⟩], 1, 1⟩⟩

/-- A heap with one object, which a thread has locked. -/
def lockedHeap (owner : ThreadId) : Heap :=
  ⟨#[⟨"A", some ⟨owner, 1⟩⟩], 1⟩

theorem contended_enter_retried_twice :
    atMonitor.Reachable ∧ (∀ heap ∈ [lockedHeap ⟨0⟩, lockedHeap ⟨1⟩], atMonitor.Blocked heap) ∧
    step.attempt (atMonitor, lockedHeap ⟨0⟩) = (.ok .yield, (atMonitor, lockedHeap ⟨0⟩)) ∧
    step.attempt (atMonitor.afterSteps [lockedHeap ⟨0⟩, lockedHeap ⟨1⟩], lockedHeap ⟨2⟩) =
      step.attempt (atMonitor, lockedHeap ⟨2⟩) := by
  have created : (create ⟨2⟩ ⟨#[0xc2], 1, 0⟩ []).attempt () =
      (.ok ⟨⟨2⟩, 0, .start #[0xc2], .blank 0, .empty 1⟩, ()) := rfl
  have reachable : atMonitor.Reachable := (Reachable.create created).push (.reference ⟨0⟩)
  have blocked (owner : ThreadId) (other : owner ≠ ⟨2⟩) :
      atMonitor.Blocked (lockedHeap owner) :=
    ⟨⟨0⟩, owner, ⟨rfl, rfl⟩, ⟨⟨owner, 1⟩, rfl, rfl⟩, other⟩
  have both : ∀ heap ∈ [lockedHeap ⟨0⟩, lockedHeap ⟨1⟩], atMonitor.Blocked heap := by
    simp only [List.forall_mem_cons]
    exact ⟨blocked ⟨0⟩ (by decide), blocked ⟨1⟩ (by decide), nofun⟩
  obtain ⟨yields, retried⟩ := contended_enter_retried reachable
  exact ⟨reachable, both, yields _ (both _ List.mem_cons_self), retried _ both _⟩

end BytecodeMachine.Frame
