/-
This file says who holds which monitors of a heap and what entering and leaving
do to that. The monitors that a thread holds are all that the thread learns of
the heap unless it meets a monitor of another thread, so two heaps are compared
as one thread finds them. A thread that enters or leaves a monitor, or fails to,
leaves the heap the same for every other thread.
-/

import BytecodeMachine.Heap
import BytecodeMachine.Proofs.Action

namespace BytecodeMachine.Heap

/-- The monitor of the object at an index, if there is such an object and it is locked. -/
def monitorAt (heap : Heap) (index : Nat) : Option Monitor :=
  heap.objects[index]?.bind HeapObject.monitor

/-- The object at an index is locked by a thread. -/
def LockedBy (heap : Heap) (index : Nat) (thread : ThreadId) : Prop :=
  ∃ monitor, heap.monitorAt index = some monitor ∧ monitor.owner = thread

/-- No object is locked by a thread. -/
def ClearOf (heap : Heap) (thread : ThreadId) : Prop :=
  ∀ index, ¬ heap.LockedBy index thread

/-- No object is locked. -/
def Unlocked (heap : Heap) : Prop :=
  ∀ object ∈ heap.objects, object.monitor = none

/-- The names of the classes of all objects. -/
def classNames (heap : Heap) : Array String :=
  heap.objects.map HeapObject.className

theorem size_eq_of_classNames_eq {left right : Heap} (same : left.classNames = right.classNames) :
    left.size = right.size := by
  have sizes := congrArg Array.size same
  rwa [classNames, classNames, Array.size_map, Array.size_map] at sizes

theorem lt_size_of_monitorAt {heap : Heap} {index : Nat} {monitor : Monitor}
    (locked : heap.monitorAt index = some monitor) : index < heap.size := by
  obtain ⟨object, found, -⟩ := Option.bind_eq_some_iff.mp locked
  exact (Array.getElem?_eq_some_iff.mp found).1

theorem monitorAt_eq_none_iff (heap : Heap) (index : Nat) :
    heap.monitorAt index = none ↔ ∀ thread, ¬ heap.LockedBy index thread := by
  constructor
  · rintro free thread ⟨monitor, locked, -⟩
    cases free.symm.trans locked
  · intro free
    cases locked : heap.monitorAt index with
    | none => rfl
    | some monitor => exact absurd ⟨monitor, locked, rfl⟩ (free monitor.owner)

theorem LockedBy.owner_unique {heap : Heap} {index : Nat} {first second : ThreadId}
    (one : heap.LockedBy index first) (two : heap.LockedBy index second) : first = second := by
  obtain ⟨monitor, locked, rfl⟩ := one
  obtain ⟨held, again, rfl⟩ := two
  cases locked.symm.trans again
  rfl

theorem LockedBy.lt_size {heap : Heap} {index : Nat} {thread : ThreadId}
    (locked : heap.LockedBy index thread) : index < heap.size := by
  obtain ⟨monitor, found, -⟩ := locked
  exact lt_size_of_monitorAt found

instance (heap : Heap) (index : Nat) (thread : ThreadId) : Decidable (heap.LockedBy index thread) :=
  decidable_of_iff ((heap.monitorAt index).any (·.owner = thread)) (by
    simp [LockedBy, Option.any_eq_true])

instance (heap : Heap) (thread : ThreadId) : Decidable (heap.ClearOf thread) :=
  decidable_of_iff (∀ index < heap.size, ¬ heap.LockedBy index thread)
    ⟨fun clear index locked => clear index locked.lt_size locked, fun clear index _ => clear index⟩

theorem unlocked_iff (heap : Heap) : heap.Unlocked ↔ ∀ index, heap.monitorAt index = none := by
  constructor
  · intro unlocked index
    unfold monitorAt
    cases found : heap.objects[index]? with
    | none => rfl
    | some object => exact unlocked object (Array.mem_of_getElem? found)
  · intro free object member
    obtain ⟨index, found⟩ := Array.getElem?_of_mem member
    have here := free index
    rwa [monitorAt, found] at here

theorem unlocked_of_clearOf {heap : Heap} (clear : ∀ thread, heap.ClearOf thread) :
    heap.Unlocked := by
  rw [unlocked_iff]
  intro index
  exact (monitorAt_eq_none_iff heap index).mpr fun thread => clear thread index

theorem Unlocked.clearOf {heap : Heap} (unlocked : heap.Unlocked) (thread : ThreadId) :
    heap.ClearOf thread :=
  fun index => (monitorAt_eq_none_iff heap index).mp ((unlocked_iff heap).mp unlocked index) thread

/-- An allocation leaves all monitors as they are. -/
theorem monitorAt_allocate (className : String) (heap : Heap) (index : Nat) :
    ((allocate className).attempt heap).2.monitorAt index = heap.monitorAt index := by
  rw [Action.attempt, run_allocate]
  split
  · simp only [monitorAt, Array.getElem?_push]
    split
    · next last => simp [last]
    · rfl
  · rfl

/-! ### A monitor set anew -/

theorem getElem?_setMonitor (heap : Heap) (reference : ObjectRef) (monitor : Option Monitor)
    (index : Nat) :
    (heap.setMonitor reference monitor).objects[index]? =
      if reference.index.toNat = index then heap.objects[index]?.map ({ · with monitor })
      else heap.objects[index]? := by
  rw [setMonitor, Array.getElem?_modify]

theorem monitorAt_setMonitor {heap : Heap} {reference : ObjectRef}
    (valid : reference.index.toNat < heap.size) (monitor : Option Monitor) (index : Nat) :
    (heap.setMonitor reference monitor).monitorAt index =
      if reference.index.toNat = index then monitor else heap.monitorAt index := by
  rw [monitorAt, getElem?_setMonitor]
  split
  · next same =>
    subst same
    rw [Array.getElem?_eq_getElem valid]
    rfl
  · rfl

theorem classNames_setMonitor (heap : Heap) (reference : ObjectRef) (monitor : Option Monitor) :
    (heap.setMonitor reference monitor).classNames = heap.classNames := by
  apply Array.ext_getElem?
  intro index
  rw [classNames, classNames, Array.getElem?_map, Array.getElem?_map, getElem?_setMonitor]
  split
  · rw [Option.map_map]
    rfl
  · rfl

/-! ### Entering and leaving -/

theorem attempt_onMonitor_of_dangling {α : Type} {heap : Heap} {reference : ObjectRef}
    (action : HeapObject → Action (Option Monitor) α)
    (dangling : heap.size ≤ reference.index.toNat) :
    (onMonitor reference action).attempt heap = (.error (.invalidReference reference), heap) := by
  rw [Action.attempt, run_onMonitor_of_none _ (Array.getElem?_eq_none dangling)]

/-- A valid reference lets a thread enter a free monitor and enter its own once more, while the
monitor of another thread, like a full count, changes nothing. -/
theorem attempt_enter {heap : Heap} {reference : ObjectRef}
    (valid : reference.index.toNat < heap.size) (thread : ThreadId) :
    (enter reference thread).attempt heap =
      match heap.monitorAt reference.index.toNat with
      | none => (.ok (.acquired 1), heap.setMonitor reference (some ⟨thread, 1⟩))
      | some monitor =>
        if monitor.owner = thread then
          if monitor.entries < Monitor.entryLimit then
            (.ok (.acquired (monitor.entries + 1)),
              heap.setMonitor reference (some { monitor with entries := monitor.entries + 1 }))
          else (.error (.entryCountOverflow thread), heap)
        else (.ok (.contended monitor.owner), heap) := by
  have found : heap.object? reference = some heap.objects[reference.index.toNat] :=
    Array.getElem?_eq_getElem valid
  have unchanged := setMonitor_self found
  rw [Action.attempt, enter, run_onMonitor_of_some _ found, monitorAt,
    Array.getElem?_eq_getElem valid]
  simp only [Action.run_bind, Option.bind_some]
  rcases locked : heap.objects[reference.index.toNat].monitor with _ | monitor
  · rfl
  · rw [locked] at unchanged
    by_cases own : monitor.owner = thread
    · by_cases room : monitor.entries < Monitor.entryLimit <;>
        simp [Monitor.run_enter_some, Except.map, own, room, unchanged]
    · simp [Monitor.run_enter_some, Except.map, own, unchanged]

/-- Only the owner of a monitor can leave it, and its last exit frees the object. -/
theorem attempt_exit {heap : Heap} {reference : ObjectRef}
    (valid : reference.index.toNat < heap.size) (thread : ThreadId) :
    (exit reference thread).attempt heap =
      match heap.monitorAt reference.index.toNat with
      | none => (.error (.exitUnlocked thread), heap)
      | some monitor =>
        if monitor.owner = thread then
          (.ok (), heap.setMonitor reference
            (if monitor.entries - 1 = 0 then none
            else some { monitor with entries := monitor.entries - 1 }))
        else (.error (.exitNotOwner thread monitor.owner), heap) := by
  have found : heap.object? reference = some heap.objects[reference.index.toNat] :=
    Array.getElem?_eq_getElem valid
  have unchanged := setMonitor_self found
  rw [Action.attempt, exit, run_onMonitor_of_some _ found, monitorAt,
    Array.getElem?_eq_getElem valid]
  simp only [Action.run_bind, Option.bind_some]
  rcases locked : heap.objects[reference.index.toNat].monitor with _ | monitor
  · rw [locked] at unchanged
    simp [Monitor.run_exit_none, unchanged]
  · rw [locked] at unchanged
    by_cases own : monitor.owner = thread
    · by_cases last : monitor.entries - 1 = 0 <;> simp [Monitor.run_exit_some, own, last]
    · simp [Monitor.run_exit_some, own, unchanged]

theorem attempt_enter_of_lockedBy {heap : Heap} {reference : ObjectRef}
    {thread owner : ThreadId} (locked : heap.LockedBy reference.index.toNat owner)
    (other : owner ≠ thread) :
    (enter reference thread).attempt heap = (.ok (.contended owner), heap) := by
  obtain ⟨monitor, found, rfl⟩ := locked
  rw [attempt_enter (lt_size_of_monitorAt found), found]
  simp only [if_neg other]

/-- A thread is turned away exactly by another thread that holds the monitor. -/
theorem attempt_enter_eq_contended {heap later : Heap} {reference : ObjectRef}
    {thread owner : ThreadId}
    (answer : (enter reference thread).attempt heap = (.ok (.contended owner), later)) :
    later = heap ∧ heap.LockedBy reference.index.toNat owner ∧ owner ≠ thread := by
  by_cases valid : reference.index.toNat < heap.size
  · rw [attempt_enter valid] at answer
    split at answer
    · cases answer
    · next monitor locked =>
      split at answer
      · split at answer <;> cases answer
      · next other =>
        cases answer
        exact ⟨rfl, ⟨monitor, locked, rfl⟩, other⟩
  · rw [enter, attempt_onMonitor_of_dangling _ (Nat.le_of_not_lt valid)] at answer
    cases answer

/-- A thread that fails to enter a monitor leaves the heap as it was. -/
theorem attempt_enter_of_error {heap : Heap} {reference : ObjectRef} {thread : ThreadId}
    {fault : Fault} (failed : ((enter reference thread).attempt heap).1 = .error fault) :
    ((enter reference thread).attempt heap).2 = heap := by
  by_cases valid : reference.index.toNat < heap.size
  · rw [attempt_enter valid] at failed ⊢
    split at failed
    · cases failed
    · split at failed
      · split at failed
        · cases failed
        · next own full => simp only [if_pos own, if_neg full]
      · cases failed
  · rw [enter, attempt_onMonitor_of_dangling _ (Nat.le_of_not_lt valid)]

/-- A thread that fails to leave a monitor leaves the heap as it was. -/
theorem attempt_exit_of_error {heap : Heap} {reference : ObjectRef} {thread : ThreadId}
    {fault : Fault} (failed : ((exit reference thread).attempt heap).1 = .error fault) :
    ((exit reference thread).attempt heap).2 = heap := by
  by_cases valid : reference.index.toNat < heap.size
  · rw [attempt_exit valid] at failed ⊢
    split at failed
    · rfl
    · split at failed
      · cases failed
      · next other => simp only [if_neg other]
  · rw [exit, attempt_onMonitor_of_dangling _ (Nat.le_of_not_lt valid)]

/-! ### The heap as one thread finds it -/

/-- Two heaps are the same for a thread when they have the same objects and it holds the same
monitors in both, equally often. -/
structure SameFor (thread : ThreadId) (left right : Heap) : Prop where
  classNames_eq : left.classNames = right.classNames
  monitorAt_iff (index : Nat) (monitor : Monitor) : monitor.owner = thread →
    (left.monitorAt index = some monitor ↔ right.monitorAt index = some monitor)

namespace SameFor

variable {thread : ThreadId} {left middle right heap : Heap}

theorem refl (thread : ThreadId) (heap : Heap) : SameFor thread heap heap :=
  ⟨rfl, fun _ _ _ => Iff.rfl⟩

theorem trans (first : SameFor thread left middle) (second : SameFor thread middle right) :
    SameFor thread left right :=
  ⟨first.classNames_eq.trans second.classNames_eq, fun index monitor own =>
    (first.monitorAt_iff index monitor own).trans (second.monitorAt_iff index monitor own)⟩

theorem size_eq (same : SameFor thread left right) : left.size = right.size :=
  size_eq_of_classNames_eq same.classNames_eq

theorem lockedBy_iff (same : SameFor thread left right) (index : Nat) :
    left.LockedBy index thread ↔ right.LockedBy index thread := by
  constructor
  · rintro ⟨monitor, locked, own⟩
    exact ⟨monitor, (same.monitorAt_iff index monitor own).mp locked, own⟩
  · rintro ⟨monitor, locked, own⟩
    exact ⟨monitor, (same.monitorAt_iff index monitor own).mpr locked, own⟩

theorem clearOf (same : SameFor thread left right) (clear : left.ClearOf thread) :
    right.ClearOf thread :=
  fun index locked => clear index ((same.lockedBy_iff index).mpr locked)

/-- Setting a monitor anew does not concern a thread that held neither the old nor the new one. -/
theorem setMonitor {reference : ObjectRef} {monitor : Option Monitor}
    (valid : reference.index.toNat < heap.size)
    (before : ¬ heap.LockedBy reference.index.toNat thread)
    (after : ∀ next, monitor = some next → next.owner ≠ thread) :
    SameFor thread heap (heap.setMonitor reference monitor) := by
  refine ⟨(classNames_setMonitor heap reference monitor).symm, fun index own owned => ?_⟩
  rw [monitorAt_setMonitor valid]
  split
  · next same =>
    subst same
    constructor
    · intro locked
      exact absurd ⟨own, locked, owned⟩ before
    · intro locked
      exact absurd owned (after own locked)
  · exact Iff.rfl

/-- Setting the same monitor anew in both heaps leaves them the same. -/
theorem setMonitor_both (same : SameFor thread left right) {reference : ObjectRef}
    (valid : reference.index.toNat < left.size) (monitor : Option Monitor) :
    SameFor thread (left.setMonitor reference monitor) (right.setMonitor reference monitor) := by
  refine ⟨?_, fun index own owned => ?_⟩
  · rw [classNames_setMonitor, classNames_setMonitor, same.classNames_eq]
  · rw [monitorAt_setMonitor valid, monitorAt_setMonitor (same.size_eq ▸ valid)]
    split
    · exact Iff.rfl
    · exact same.monitorAt_iff index own owned

end SameFor

/-- A thread that enters a monitor of one heap enters it as well in every heap that is the same
for it, unless another thread holds it there. -/
theorem SameFor.enter {thread : ThreadId} {left right next : Heap} {reference : ObjectRef}
    {count : Nat} (same : SameFor thread left right)
    (entered : (Heap.enter reference thread).attempt left = (.ok (.acquired count), next))
    (free : ∀ owner, owner ≠ thread → ¬ right.LockedBy reference.index.toNat owner) :
    ∃ reached, (Heap.enter reference thread).attempt right = (.ok (.acquired count), reached) ∧
      SameFor thread next reached := by
  by_cases valid : reference.index.toNat < left.size
  · have validRight : reference.index.toNat < right.size := same.size_eq ▸ valid
    rw [attempt_enter valid] at entered
    rw [attempt_enter validRight]
    split at entered
    · next unlocked =>
      cases entered
      have unlockedRight : right.monitorAt reference.index.toNat = none := by
        rw [monitorAt_eq_none_iff]
        intro owner locked
        by_cases own : owner = thread
        · subst own
          exact (monitorAt_eq_none_iff _ _).mp unlocked _ ((same.lockedBy_iff _).mpr locked)
        · exact free owner own locked
      rw [unlockedRight]
      exact ⟨_, rfl, same.setMonitor_both valid _⟩
    · next monitor locked =>
      split at entered
      · next own =>
        split at entered
        · next room =>
          cases entered
          rw [(same.monitorAt_iff _ _ own).mp locked]
          exact ⟨_, by simp only [if_pos own, if_pos room], same.setMonitor_both valid _⟩
        · cases entered
      · cases entered
  · rw [Heap.enter, attempt_onMonitor_of_dangling _ (Nat.le_of_not_lt valid)] at entered
    cases entered

/-- A thread that leaves a monitor of one heap leaves it as well in every heap that is the same
for it. -/
theorem SameFor.exit {thread : ThreadId} {left right next : Heap} {reference : ObjectRef}
    (same : SameFor thread left right)
    (exited : (Heap.exit reference thread).attempt left = (.ok (), next)) :
    ∃ reached, (Heap.exit reference thread).attempt right = (.ok (), reached) ∧
      SameFor thread next reached := by
  by_cases valid : reference.index.toNat < left.size
  · have validRight : reference.index.toNat < right.size := same.size_eq ▸ valid
    rw [attempt_exit valid] at exited
    rw [attempt_exit validRight]
    split at exited
    · cases exited
    · next monitor locked =>
      split at exited
      · next own =>
        cases exited
        rw [(same.monitorAt_iff _ _ own).mp locked]
        exact ⟨_, by simp only [if_pos own], same.setMonitor_both valid _⟩
      · cases exited
  · rw [Heap.exit, attempt_onMonitor_of_dangling _ (Nat.le_of_not_lt valid)] at exited
    cases exited

/-- Whatever comes of entering a monitor, no other thread notices. -/
theorem sameFor_enter {thread other : ThreadId} (distinct : other ≠ thread) (heap : Heap)
    (reference : ObjectRef) :
    SameFor other heap ((enter reference thread).attempt heap).2 := by
  by_cases valid : reference.index.toNat < heap.size
  · rw [attempt_enter valid]
    split
    · next free =>
      refine SameFor.setMonitor valid ((monitorAt_eq_none_iff _ _).mp free other) ?_
      rintro next ⟨⟩
      exact distinct.symm
    · next monitor locked =>
      split
      · next own =>
        have held : heap.LockedBy reference.index.toNat thread := ⟨monitor, locked, own⟩
        split
        · refine SameFor.setMonitor valid (fun also => distinct (also.owner_unique held)) ?_
          rintro next ⟨⟩
          exact fun owned => distinct (owned.symm.trans own)
        · exact SameFor.refl other heap
      · exact SameFor.refl other heap
  · rw [enter, attempt_onMonitor_of_dangling _ (Nat.le_of_not_lt valid)]
    exact SameFor.refl other heap

/-- Whatever comes of leaving a monitor, no other thread notices. -/
theorem sameFor_exit {thread other : ThreadId} (distinct : other ≠ thread) (heap : Heap)
    (reference : ObjectRef) :
    SameFor other heap ((exit reference thread).attempt heap).2 := by
  by_cases valid : reference.index.toNat < heap.size
  · rw [attempt_exit valid]
    split
    · exact SameFor.refl other heap
    · next monitor locked =>
      split
      · next own =>
        have held : heap.LockedBy reference.index.toNat thread := ⟨monitor, locked, own⟩
        refine SameFor.setMonitor valid (fun also => distinct (also.owner_unique held)) ?_
        intro next left
        split at left <;> cases left
        exact fun owned => distinct (owned.symm.trans own)
      · exact SameFor.refl other heap
  · rw [exit, attempt_onMonitor_of_dangling _ (Nat.le_of_not_lt valid)]
    exact SameFor.refl other heap

end BytecodeMachine.Heap
