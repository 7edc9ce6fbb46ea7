/-
This file compares heaps object by object. What a thread does to a monitor is
determined by that monitor alone and changes no other one: on two heaps that
agree on the object it has the same answer and leaves the heaps in agreement.
-/

import BytecodeMachine.Proofs.Heap.Locks

namespace BytecodeMachine.Heap

/-- Two heaps of the same size agree on certain objects when those have the same monitors. -/
structure AgreeOn (own : Nat → Prop) (left right : Heap) : Prop where
  size_eq : left.size = right.size
  monitorAt_eq : ∀ index, own index → left.monitorAt index = right.monitorAt index

namespace AgreeOn

variable {own other : Nat → Prop} {left middle right : Heap}

theorem refl (own : Nat → Prop) (heap : Heap) : AgreeOn own heap heap :=
  ⟨rfl, fun _ _ => rfl⟩

theorem symm (agree : AgreeOn own left right) : AgreeOn own right left :=
  ⟨agree.size_eq.symm, fun index mine => (agree.monitorAt_eq index mine).symm⟩

theorem trans (first : AgreeOn own left middle) (second : AgreeOn own middle right) :
    AgreeOn own left right :=
  ⟨first.size_eq.trans second.size_eq, fun index mine =>
    (first.monitorAt_eq index mine).trans (second.monitorAt_eq index mine)⟩

theorem mono (agree : AgreeOn own left right) (fewer : ∀ index, other index → own index) :
    AgreeOn other left right :=
  ⟨agree.size_eq, fun index mine => agree.monitorAt_eq index (fewer index mine)⟩

end AgreeOn

/-- Two outcomes differ at most in the heaps that are left, and these agree on certain objects. -/
structure Alike {α σ : Type} (own : Nat → Prop) (left right : Except Fault α × (σ × Heap)) :
    Prop where
  answer_eq : left.1 = right.1
  state_eq : left.2.1 = right.2.1
  agree : AgreeOn own left.2.2 right.2.2

theorem Alike.exists_eq {α σ : Type} {own : Nat → Prop} {left right : Except Fault α × (σ × Heap)}
    (alike : Alike own left right) :
    ∃ answer state leftAfter rightAfter, left = (answer, (state, leftAfter)) ∧
      right = (answer, (state, rightAfter)) ∧ AgreeOn own leftAfter rightAfter :=
  ⟨left.1, left.2.1, left.2.2, right.2.2, rfl,
    Prod.ext alike.answer_eq.symm (Prod.ext alike.state_eq.symm rfl), alike.agree⟩

theorem size_setMonitor (heap : Heap) (reference : ObjectRef) (monitor : Option Monitor) :
    (heap.setMonitor reference monitor).size = heap.size :=
  size_eq_of_classNames_eq (classNames_setMonitor heap reference monitor)

/-- Nothing but the monitor of a single object has a part in what is answered and in what becomes
of the heap; without the object the heap stays as it is. -/
def Local {α : Type} (reference : ObjectRef) (respond : Heap → α × Heap) : Prop :=
  ∃ (inner : Option Monitor → α × Option Monitor) (dangling : α), ∀ heap,
    respond heap =
      if reference.index.toNat < heap.size then
        ((inner (heap.monitorAt reference.index.toNat)).1,
          heap.setMonitor reference (inner (heap.monitorAt reference.index.toNat)).2)
      else (dangling, heap)

namespace Local

variable {α β : Type} {reference : ObjectRef} {respond : Heap → α × Heap}

theorem map (isLocal : Local reference respond) (change : α → β) :
    Local reference fun heap => (change (respond heap).1, (respond heap).2) := by
  obtain ⟨inner, dangling, outcome⟩ := isLocal
  refine ⟨fun monitor => (change (inner monitor).1, (inner monitor).2), change dangling,
    fun heap => ?_⟩
  simp only [outcome]
  split <;> rfl

/-- On heaps that agree on the object the answers are the same, and the heaps stay in
agreement. -/
theorem agree {own : Nat → Prop} {left right : Heap} (isLocal : Local reference respond)
    (mine : own reference.index.toNat) (agree : AgreeOn own left right) :
    (respond left).1 = (respond right).1 ∧ AgreeOn own (respond left).2 (respond right).2 := by
  obtain ⟨inner, dangling, outcome⟩ := isLocal
  rw [outcome, outcome, ← agree.size_eq, ← agree.monitorAt_eq _ mine]
  split
  · next valid =>
    refine ⟨rfl, ?_, fun index owned => ?_⟩
    · rw [size_setMonitor, size_setMonitor, agree.size_eq]
    · rw [monitorAt_setMonitor valid, monitorAt_setMonitor (agree.size_eq ▸ valid),
        agree.monitorAt_eq index owned]
  · exact ⟨rfl, agree⟩

/-- Every other object keeps its monitor. -/
theorem agreeOn_others (isLocal : Local reference respond) {others : Nat → Prop}
    (apart : ¬ others reference.index.toNat) (heap : Heap) :
    AgreeOn others heap (respond heap).2 := by
  obtain ⟨inner, dangling, outcome⟩ := isLocal
  rw [outcome]
  split
  · next valid =>
    refine ⟨(size_setMonitor _ _ _).symm, fun index other => ?_⟩
    have different : reference.index.toNat ≠ index := fun same => apart (same ▸ other)
    rw [monitorAt_setMonitor valid, if_neg different]
  · exact AgreeOn.refl others heap

end Local

/-! ### Heaps without their monitors -/

/-- What is left of a heap when nothing is locked: its objects and how many it can hold. -/
def withoutMonitors (heap : Heap) : Heap :=
  { heap with objects := heap.objects.map ({ · with monitor := none }) }

/-- A heap is known by its monitors and what is left without them. -/
theorem eq_of_withoutMonitors_eq {left right : Heap}
    (same : left.withoutMonitors = right.withoutMonitors)
    (monitors : ∀ index, left.monitorAt index = right.monitorAt index) : left = right := by
  obtain ⟨left, room⟩ := left
  obtain ⟨right, _⟩ := right
  simp only [withoutMonitors, mk.injEq] at same
  obtain ⟨objects, rfl⟩ := same
  refine congrArg (mk · room) (Array.ext_getElem? fun index => ?_)
  have object := congrArg (·[index]?) objects
  have monitor := monitors index
  simp only [Array.getElem?_map, monitorAt] at object monitor
  generalize left[index]? = mine, right[index]? = theirs at object monitor ⊢
  rcases mine with _ | ⟨name, mine⟩ <;> rcases theirs with _ | ⟨other, theirs⟩ <;> cases object
  · rfl
  · exact congrArg (some <| HeapObject.mk name ·) monitor

theorem withoutMonitors_setMonitor (heap : Heap) (reference : ObjectRef)
    (monitor : Option Monitor) :
    (heap.setMonitor reference monitor).withoutMonitors = heap.withoutMonitors := by
  refine congrArg (mk · heap.capacity) (Array.ext_getElem? fun index => ?_)
  rw [Array.getElem?_map, Array.getElem?_map, getElem?_setMonitor]
  split
  · rw [Option.map_map]
    rfl
  · rfl

theorem Local.withoutMonitors_eq {α : Type} {reference : ObjectRef} {respond : Heap → α × Heap}
    (isLocal : Local reference respond) (heap : Heap) :
    (respond heap).2.withoutMonitors = heap.withoutMonitors := by
  obtain ⟨inner, dangling, outcome⟩ := isLocal
  rw [outcome]
  split
  · exact withoutMonitors_setMonitor heap reference _
  · rfl

theorem classNames_withoutMonitors (heap : Heap) :
    heap.withoutMonitors.classNames = heap.classNames := by
  rw [classNames, withoutMonitors, Array.map_map]
  rfl

/-- What is done to two different objects can be done in either order: the answers are those that
either has alone, and the same heap is left. -/
theorem Local.commute {α β : Type} {one other : ObjectRef} {first : Heap → α × Heap}
    {second : Heap → β × Heap} (firstLocal : Local one first) (secondLocal : Local other second)
    (apart : one.index.toNat ≠ other.index.toNat) (heap : Heap) :
    (second (first heap).2).1 = (second heap).1 ∧ (first (second heap).2).1 = (first heap).1 ∧
      (second (first heap).2).2 = (first (second heap).2).2 := by
  have firstAway (heap : Heap) : AgreeOn (· ≠ one.index.toNat) heap (first heap).2 :=
    firstLocal.agreeOn_others (fun away => away rfl) heap
  have secondAway (heap : Heap) : AgreeOn (· ≠ other.index.toNat) heap (second heap).2 :=
    secondLocal.agreeOn_others (fun away => away rfl) heap
  -- So either action finds its own object as it would without the other action.
  obtain ⟨firstAnswer, firstLater⟩ := firstLocal.agree apart (secondAway heap)
  obtain ⟨secondAnswer, secondLater⟩ := secondLocal.agree apart.symm (firstAway heap)
  refine ⟨secondAnswer.symm, firstAnswer.symm, eq_of_withoutMonitors_eq ?_ fun index => ?_⟩
  · rw [secondLocal.withoutMonitors_eq, firstLocal.withoutMonitors_eq,
      firstLocal.withoutMonitors_eq, secondLocal.withoutMonitors_eq]
  · by_cases atOther : index = other.index.toNat
    · have atOne : index ≠ one.index.toNat := atOther ▸ apart.symm
      exact (secondLater.monitorAt_eq index atOne).symm.trans
        ((firstAway _).monitorAt_eq index atOne)
    · exact ((secondAway _).monitorAt_eq index atOther).symm.trans
        (firstLater.monitorAt_eq index atOther)

/-! ### Entering and leaving -/

/-- An action on the monitor of an object is local, provided that it has the same outcome for all
objects. -/
theorem local_onMonitor {α : Type} {reference : ObjectRef}
    {action : HeapObject → Action (Option Monitor) α} (inner : Action (Option Monitor) α)
    (same : ∀ object monitor, (action object).attempt monitor = inner.attempt monitor) :
    Local reference (onMonitor reference action).attempt := by
  refine ⟨inner.attempt, .error (.invalidReference reference), fun heap => ?_⟩
  split
  · next valid =>
    have found : heap.object? reference = some heap.objects[reference.index.toNat] :=
      Array.getElem?_eq_getElem valid
    have here : heap.monitorAt reference.index.toNat =
        heap.objects[reference.index.toNat].monitor := by
      rw [monitorAt, Array.getElem?_eq_getElem valid]
      rfl
    rw [Action.attempt, run_onMonitor_of_some _ found, here, ← same]
    rfl
  · next dangling => exact attempt_onMonitor_of_dangling _ (Nat.le_of_not_lt dangling)

theorem local_enter (reference : ObjectRef) (thread : ThreadId) :
    Local reference (enter reference thread).attempt := by
  refine local_onMonitor (Monitor.enter thread) fun object monitor => ?_
  rw [Action.attempt_bind]
  rcases (Monitor.enter thread).attempt monitor with ⟨_ | _ | _, next⟩ <;> rfl

theorem local_exit (reference : ObjectRef) (thread : ThreadId) :
    Local reference (exit reference thread).attempt := by
  refine local_onMonitor (do let _ ← Monitor.exit thread) fun object monitor => ?_
  rw [Action.attempt_bind, Action.attempt_bind]
  rcases (Monitor.exit thread).attempt monitor with ⟨_ | remaining, next⟩
  · rfl
  · dsimp only
    split <;> rfl

theorem keeps_agreeOn_enter {own : Nat → Prop} {reference : ObjectRef} (thread : ThreadId)
    (apart : ¬ own reference.index.toNat) (heap : Heap) :
    (enter reference thread).Keeps (AgreeOn own heap) :=
  fun next agree => agree.trans ((local_enter reference thread).agreeOn_others apart next)

theorem keeps_agreeOn_exit {own : Nat → Prop} {reference : ObjectRef} (thread : ThreadId)
    (apart : ¬ own reference.index.toNat) (heap : Heap) :
    (exit reference thread).Keeps (AgreeOn own heap) :=
  fun next agree => agree.trans ((local_exit reference thread).agreeOn_others apart next)

end BytecodeMachine.Heap
