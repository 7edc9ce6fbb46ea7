/-
This file holds the heap that all threads share. Objects are never moved and
never freed, so a reference is the index of its object, and everything that
happens to an object later happens to its monitor alone.
-/

import BytecodeMachine.Heap.Monitor

namespace BytecodeMachine

/-- An object: the name of its class and, while it is locked, its monitor. -/
structure HeapObject where
  className : String
  monitor : Option Monitor
deriving DecidableEq

/-- Whether a thread holds the object's monitor. -/
def HeapObject.isLocked (object : HeapObject) : Bool :=
  object.monitor.isSome

/-- The heap: its objects in the order of their allocation, and how many it can hold. -/
structure Heap where
  objects : Array HeapObject
  capacity : Nat
deriving DecidableEq

namespace Heap

/-- The heap without objects. -/
def empty (capacity : Nat) : Heap :=
  ⟨#[], capacity⟩

/-- How many objects the heap holds. -/
def size (heap : Heap) : Nat :=
  heap.objects.size

/-- The object that a reference leads to, if it leads to one. -/
def object? (heap : Heap) (reference : ObjectRef) : Option HeapObject :=
  heap.objects[reference.index.toNat]?

/-- The object that a reference leads to. -/
def object (heap : Heap) (reference : ObjectRef) : Except Fault HeapObject :=
  match heap.object? reference with
  | some object => .ok object
  | none => .error (.invalidReference reference)

/-- Makes a new unlocked object and answers with a reference to it. -/
def allocate (className : String) : Action Heap ObjectRef := do
  let heap ← get
  if heap.size < heap.capacity then
    set { heap with objects := heap.objects.push ⟨className, none⟩ }
    return ⟨UInt32.ofNat heap.size⟩
  else Action.fail .outOfMemory

/-! ### Monitors of objects -/

/-- The heap with another monitor on one object. -/
def setMonitor (heap : Heap) (reference : ObjectRef) (monitor : Option Monitor) : Heap :=
  { heap with objects := heap.objects.modify reference.index.toNat ({ · with monitor }) }

/-- Performs an action on the monitor of the object that a reference leads to. -/
def onMonitor {α : Type} (reference : ObjectRef) (action : HeapObject → Action (Option Monitor) α) :
    Action Heap α := do
  let object ← Action.inspect (Heap.object · reference)
  Action.zoom (fun _ => object.monitor) (fun monitor heap => heap.setMonitor reference monitor)
    (action object)

/-- Lets a thread enter the monitor of an object. -/
def enter (reference : ObjectRef) (thread : ThreadId) : Action Heap Entry :=
  onMonitor reference fun object => do
    let entry ← Monitor.enter thread
    match entry with
    | .acquired entries =>
      Action.report (.monitorEntered thread object.className reference entries)
    | .contended owner =>
      Action.report (.monitorContended thread object.className reference owner)
    return entry

/-- Lets a thread leave the monitor of an object once. -/
def exit (reference : ObjectRef) (thread : ThreadId) : Action Heap Unit :=
  onMonitor reference fun object => do
    let remaining ← Monitor.exit thread
    if remaining = 0 then
      Action.report (.monitorReleased thread object.className reference)
    else
      Action.report (.monitorExited thread object.className reference remaining)

/-! ### What the operations amount to -/

theorem run_allocate (className : String) (heap : Heap) :
    (allocate className).run heap =
      if heap.size < heap.capacity then
        ⟨.ok ⟨UInt32.ofNat heap.size⟩,
          { heap with objects := heap.objects.push ⟨className, none⟩ }, []⟩
      else ⟨.error .outOfMemory, heap, []⟩ := by
  by_cases room : heap.size < heap.capacity <;> simp [allocate, Action.run_bind, Except.map, room]

/-- Through a dangling reference nothing is done. -/
theorem run_onMonitor_of_none {α : Type} {reference : ObjectRef} {heap : Heap}
    (action : HeapObject → Action (Option Monitor) α) (dangling : heap.object? reference = none) :
    (onMonitor reference action).run heap = ⟨.error (.invalidReference reference), heap, []⟩ := by
  simp [onMonitor, Action.run_bind, object, dangling]

theorem run_onMonitor_of_some {α : Type} {reference : ObjectRef} {heap : Heap}
    {object : HeapObject} (action : HeapObject → Action (Option Monitor) α)
    (found : heap.object? reference = some object) :
    (onMonitor reference action).run heap =
      ⟨((action object).run object.monitor).result,
        heap.setMonitor reference ((action object).run object.monitor).state,
        ((action object).run object.monitor).events⟩ := by
  simp [onMonitor, Action.run_bind, Heap.object, found]

/-- An object that keeps its monitor leaves the heap as it was. -/
theorem setMonitor_self {heap : Heap} {reference : ObjectRef} {object : HeapObject}
    (found : heap.object? reference = some object) :
    heap.setMonitor reference object.monitor = heap := by
  have unchanged : heap.objects.modify reference.index.toNat ({ · with monitor := object.monitor })
      = heap.objects := by
    apply Array.ext_getElem?
    intro index
    rw [Array.getElem?_modify]
    split
    · next equal =>
      subst equal
      unfold object? at found
      rw [found]
      rfl
    · rfl
  rw [setMonitor, unchanged]

end Heap

end BytecodeMachine
