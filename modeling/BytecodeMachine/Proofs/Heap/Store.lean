/-
This file describes the heap as a store to which objects are only added. The
k-th allocation makes the k-th object and answers with the number k, and what
is done to a monitor leaves all class names and every other monitor as they
are. Main statement: after any calls on a new heap every reference that was
handed out leads to an object of the class that was asked for, and what is done
to one object cannot be told from another.
-/

import BytecodeMachine.Proofs.Heap.Agreement
import BytecodeMachine.Proofs.Heap.History

namespace BytecodeMachine.Heap

/-! ### Calls on one object -/

/-- The object whose monitor a call is about. -/
def Call.object? : Call → Option ObjectRef
  | allocate _ => none
  | enter reference _ | exit reference _ => some reference

variable {call : Call} {reference : ObjectRef} {heap : Heap}

theorem Call.eq_enter_or_exit (about : call.object? = some reference) :
    (∃ thread, call = .enter reference thread) ∨ ∃ thread, call = .exit reference thread := by
  cases call with
  | allocate className => cases about
  | enter entered thread =>
    cases about
    exact Or.inl ⟨thread, rfl⟩
  | exit left thread =>
    cases about
    exact Or.inr ⟨thread, rfl⟩

/-- A call on an object depends on the monitor of that object alone and changes no other one. -/
theorem Call.local_perform (about : call.object? = some reference) :
    Local reference call.perform.attempt := by
  obtain ⟨thread, rfl⟩ | ⟨thread, rfl⟩ := eq_enter_or_exit about
  · have outcome : (enter reference thread).perform.attempt = _ :=
      funext (Action.attempt_map Answer.entry (Heap.enter reference thread))
    exact outcome ▸ (local_enter reference thread).map _
  · have outcome : (exit reference thread).perform.attempt = _ :=
      funext (Action.attempt_map (fun _ => Answer.exited) (Heap.exit reference thread))
    exact outcome ▸ (local_exit reference thread).map _

theorem Call.perform_of_dangling (about : call.object? = some reference)
    (dangling : heap.size ≤ reference.index.toNat) :
    call.perform.attempt heap = (.error (.invalidReference reference), heap) := by
  obtain ⟨thread, rfl⟩ | ⟨thread, rfl⟩ := eq_enter_or_exit about
  · rw [perform, Action.attempt_map, Heap.enter, attempt_onMonitor_of_dangling _ dangling]
    rfl
  · rw [perform, Action.attempt_map, Heap.exit, attempt_onMonitor_of_dangling _ dangling]
    rfl

theorem Call.perform_ne_invalidReference (about : call.object? = some reference)
    (valid : reference.index.toNat < heap.size) (other : ObjectRef) :
    (call.perform.attempt heap).1 ≠ .error (.invalidReference other) := by
  intro failed
  obtain ⟨thread, rfl⟩ | ⟨thread, rfl⟩ := eq_enter_or_exit about
  · rw [perform, Action.attempt_map] at failed
    have refused := Except.error_of_map_eq_error failed
    rw [attempt_enter valid] at refused
    repeat' split at refused
    all_goals cases refused
  · rw [perform, Action.attempt_map] at failed
    have refused := Except.error_of_map_eq_error failed
    rw [attempt_exit valid] at refused
    repeat' split at refused
    all_goals cases refused

/-- A call finds a reference invalid exactly when it leads behind the last object, and it names
the reference that it was given. -/
theorem Call.perform_eq_invalidReference_iff (about : call.object? = some reference) (heap : Heap)
    (other : ObjectRef) :
    (call.perform.attempt heap).1 = .error (.invalidReference other) ↔
      heap.size ≤ reference.index.toNat ∧ other = reference := by
  constructor
  · intro failed
    have dangling : heap.size ≤ reference.index.toNat :=
      Nat.le_of_not_lt fun valid => perform_ne_invalidReference about valid other failed
    rw [perform_of_dangling about dangling] at failed
    cases failed
    exact ⟨dangling, rfl⟩
  · rintro ⟨dangling, rfl⟩
    rw [perform_of_dangling about dangling]

/-- Calls on different objects may change places: each of them answers the same, and the same heap
is left. -/
theorem Call.commute {first second : Call} {one other : ObjectRef}
    (firstAbout : first.object? = some one) (secondAbout : second.object? = some other)
    (apart : one ≠ other) (heap : Heap) :
    log [second, first] heap = (log [first, second] heap).reverse ∧
      after [second, first] heap = after [first, second] heap := by
  have indices : one.index.toNat ≠ other.index.toNat := fun same =>
    apart (congrArg ObjectRef.mk (UInt32.toNat_inj.mp same))
  obtain ⟨secondAnswer, firstAnswer, sameHeap⟩ :=
    (local_perform firstAbout).commute (local_perform secondAbout) indices heap
  refine ⟨?_, sameHeap.symm⟩
  simp only [log, List.reverse_cons, List.reverse_nil, List.nil_append, List.cons_append,
    secondAnswer, firstAnswer]

/-- An object is not found exactly when its reference leads behind the last one. -/
theorem object_eq_error_iff (heap : Heap) (reference : ObjectRef) (fault : Fault) :
    heap.object reference = .error fault ↔
      heap.size ≤ reference.index.toNat ∧ fault = .invalidReference reference := by
  rw [object, object?]
  rcases Nat.lt_or_ge reference.index.toNat heap.size with valid | dangling
  · rw [Array.getElem?_eq_getElem valid]
    constructor
    · intro failed
      cases failed
    · rintro ⟨dangling, -⟩
      exact absurd valid (Nat.not_lt_of_le dangling)
  · rw [Array.getElem?_eq_none dangling]
    constructor
    · rintro ⟨⟩
      exact ⟨dangling, rfl⟩
    · rintro ⟨-, rfl⟩
      rfl

/-! ### What has been allocated -/

/-- The objects that were allocated in the course of calls, in order: the class that was asked for
and the reference that was handed out. -/
def allocations (records : List Record) : List (String × ObjectRef) :=
  records.filterMap fun
    | (.allocate className, .ok (.allocated reference)) => some (className, reference)
    | _ => none

/-- A heap of some capacity stores what has been allocated: its k-th object is of the class that
was asked for with the k-th allocation, and that was answered with the number k. -/
structure Stores (heap : Heap) (capacity : Nat) (allocated : List (String × ObjectRef)) : Prop where
  capacity_eq : heap.capacity = capacity
  size_le : heap.size ≤ capacity
  classNames_eq : heap.classNames = (allocated.map Prod.fst).toArray
  index_eq (place : Nat) (className : String) (reference : ObjectRef) :
    allocated[place]? = some (className, reference) → reference.index = UInt32.ofNat place

theorem stores_empty (capacity : Nat) : (empty capacity).Stores capacity [] :=
  ⟨rfl, Nat.zero_le capacity, Array.map_empty, nofun⟩

namespace Stores

variable {heap : Heap} {capacity : Nat} {allocated : List (String × ObjectRef)}

theorem length_eq (stores : heap.Stores capacity allocated) : allocated.length = heap.size :=
  calc allocated.length
    _ = (allocated.map Prod.fst).toArray.size := by simp
    _ = heap.classNames.size := congrArg Array.size stores.classNames_eq.symm
    _ = heap.size := Array.size_map

/-- While there is room, an allocation adds an object with the next number. -/
theorem attempt_allocate (stores : heap.Stores capacity allocated) (room : heap.size < capacity)
    (className : String) :
    (allocate className).attempt heap = (.ok ⟨UInt32.ofNat heap.size⟩,
      { heap with objects := heap.objects.push ⟨className, none⟩ }) := by
  rw [Action.attempt, run_allocate, if_pos (stores.capacity_eq.symm ▸ room)]

/-- A full heap refuses and stays as it is. -/
theorem attempt_allocate_of_full (stores : heap.Stores capacity allocated)
    (full : heap.size = capacity) (className : String) :
    (allocate className).attempt heap = (.error .outOfMemory, heap) := by
  rw [Action.attempt, run_allocate,
    if_neg (stores.capacity_eq.symm ▸ full ▸ Nat.lt_irrefl heap.size)]

theorem perform_allocate (stores : heap.Stores capacity allocated) (className : String) :
    ((Call.allocate className).perform.attempt heap).2.Stores capacity (allocated ++ allocations
      [(.allocate className, ((Call.allocate className).perform.attempt heap).1)]) := by
  rw [Call.perform, Action.attempt_map]
  rcases Nat.lt_or_eq_of_le stores.size_le with room | full
  · rw [stores.attempt_allocate room]
    refine ⟨stores.capacity_eq, ?_, ?_, fun place name reference found => ?_⟩
    · rwa [size, Array.size_push]
    · simp only [classNames, Array.map_push, allocations, Except.map, List.filterMap_cons,
        List.filterMap_nil, List.map_append, List.map_cons, List.map_nil]
      rw [← classNames, stores.classNames_eq, List.push_toArray]
    · rw [List.getElem?_append] at found
      split at found
      · exact stores.index_eq place name reference found
      · have inside := (List.getElem?_eq_some_iff.mp found).1
        have last : place = allocated.length := by
          simp only [allocations, Except.map, List.filterMap_cons, List.filterMap_nil,
            List.length_singleton] at inside
          omega
        subst place
        rw [Nat.sub_self] at found
        cases found
        rw [stores.length_eq]
  · rw [stores.attempt_allocate_of_full full]
    exact (List.append_nil allocated).symm ▸ stores

theorem perform (stores : heap.Stores capacity allocated) (call : Call) :
    (call.perform.attempt heap).2.Stores capacity
      (allocated ++ allocations [(call, (call.perform.attempt heap).1)]) := by
  cases about : call.object? with
  | none =>
    cases call with
    | allocate className => exact stores.perform_allocate className
    | enter | exit => cases about
  | some reference =>
    have noneAllocated : allocations [(call, (call.perform.attempt heap).1)] = [] := by
      obtain ⟨thread, rfl⟩ | ⟨thread, rfl⟩ := Call.eq_enter_or_exit about <;> rfl
    have kept := (Call.local_perform about).withoutMonitors_eq heap
    have sameNames := congrArg classNames kept
    rw [classNames_withoutMonitors, classNames_withoutMonitors] at sameNames
    rw [noneAllocated, List.append_nil]
    refine ⟨(congrArg Heap.capacity kept).trans stores.capacity_eq, ?_,
      sameNames.trans stores.classNames_eq, stores.index_eq⟩
    exact size_eq_of_classNames_eq sameNames ▸ stores.size_le

theorem after (stores : heap.Stores capacity allocated) (calls : List Call) :
    (Heap.after calls heap).Stores capacity (allocated ++ allocations (log calls heap)) := by
  induction calls generalizing heap allocated with
  | nil => exact (List.append_nil allocated).symm ▸ stores
  | cons call later inductionHypothesis =>
    have split : allocations (log (call :: later) heap) = _ :=
      List.filterMap_append (l := [_])
    rw [split, ← List.append_assoc]
    exact inductionHypothesis (stores.perform call)

/-! ### What a store answers -/

theorem allocate_eq_error_iff (stores : heap.Stores capacity allocated) (className : String)
    (fault : Fault) (later : Heap) :
    (allocate className).attempt heap = (.error fault, later) ↔
      heap.size = capacity ∧ fault = .outOfMemory ∧ later = heap := by
  rcases Nat.lt_or_eq_of_le stores.size_le with room | full
  · rw [stores.attempt_allocate room]
    exact ⟨nofun, fun ⟨full, _⟩ => absurd full (Nat.ne_of_lt room)⟩
  · rw [stores.attempt_allocate_of_full full]
    constructor
    · rintro ⟨⟩
      exact ⟨full, rfl, rfl⟩
    · rintro ⟨-, rfl, rfl⟩
      rfl

section Numbered

variable (stores : heap.Stores capacity allocated) (fewer : heap.size < UInt32.size)
include stores fewer

/-- As long as the numbers suffice, the k-th reference is the number k. -/
theorem toNat_index {place : Nat} {className : String} {reference : ObjectRef}
    (found : allocated[place]? = some (className, reference)) :
    reference.index.toNat = place := by
  have inside := (List.getElem?_eq_some_iff.mp found).1
  rw [stores.length_eq] at inside
  rw [stores.index_eq place className reference found]
  exact UInt32.toNat_ofNat_of_lt' (Nat.lt_trans inside fewer)

/-- A reference that was handed out leads to an object of the class that was asked for. -/
theorem exists_object {place : Nat} {className : String} {reference : ObjectRef}
    (found : allocated[place]? = some (className, reference)) :
    ∃ object, heap.object reference = .ok object ∧ object.className = className := by
  have named : heap.classNames[place]? = some className := by
    rw [stores.classNames_eq, List.getElem?_toArray, List.getElem?_map, found]
    rfl
  rw [classNames, Array.getElem?_map, Option.map_eq_some_iff] at named
  obtain ⟨object, here, sameName⟩ := named
  rw [← stores.toNat_index fewer found] at here
  refine ⟨object, ?_, sameName⟩
  rw [Heap.object, object?, here]

theorem allocate_eq_ok_iff (className : String) (reference : ObjectRef) (later : Heap) :
    (allocate className).attempt heap = (.ok reference, later) ↔
      heap.size < capacity ∧ reference.index.toNat = heap.size ∧
        later = { heap with objects := heap.objects.push ⟨className, none⟩ } := by
  have number : (UInt32.ofNat heap.size).toNat = heap.size :=
    UInt32.toNat_ofNat_of_lt' fewer
  rcases Nat.lt_or_eq_of_le stores.size_le with room | full
  · rw [stores.attempt_allocate room]
    constructor
    · rintro ⟨⟩
      exact ⟨room, number, rfl⟩
    · rintro ⟨-, next, rfl⟩
      have sameIndex : UInt32.ofNat heap.size = reference.index :=
        UInt32.toNat_inj.mp (number.trans next.symm)
      rw [sameIndex]
  · rw [stores.attempt_allocate_of_full full]
    exact ⟨nofun, fun ⟨room, _⟩ => absurd full (Nat.ne_of_lt room)⟩

/-- The next number has not been handed out. -/
theorem not_mem_of_index {reference : ObjectRef} (next : heap.size ≤ reference.index.toNat) :
    reference ∉ allocated.map Prod.snd := by
  intro member
  obtain ⟨⟨className, _⟩, entry, rfl⟩ := List.mem_map.mp member
  obtain ⟨place, found⟩ := List.getElem?_of_mem entry
  have inside := (List.getElem?_eq_some_iff.mp found).1
  rw [stores.length_eq, ← stores.toNat_index fewer found] at inside
  exact Nat.not_lt_of_le next inside

end Numbered

end Stores

/-- The heap is a store to which objects are only added. After any calls on a new heap it holds no
more objects than it may. An allocation fails, with no change, exactly when it holds as many, and
otherwise answers with the next number, which was not handed out before. The k-th reference that
was handed out leads to an object of the class that the k-th allocation asked for. An object is
not found, and its monitor cannot be entered or left, exactly when the reference leads behind the
last object. Entering and leaving change nothing but the monitor of the object that they name, and
calls on different objects may change places. -/
theorem append_only (capacity : Nat) (calls : List Call)
    (fewer : (after calls (empty capacity)).size < UInt32.size) :
    let heap := after calls (empty capacity)
    let allocated := allocations (log calls (empty capacity))
    heap.size ≤ capacity ∧
    (∀ className fault later, (allocate className).attempt heap = (.error fault, later) ↔
      heap.size = capacity ∧ fault = .outOfMemory ∧ later = heap) ∧
    (∀ className reference later, (allocate className).attempt heap = (.ok reference, later) ↔
      heap.size < capacity ∧ reference.index.toNat = heap.size ∧
        later = { heap with objects := heap.objects.push ⟨className, none⟩ }) ∧
    (∀ reference : ObjectRef, reference.index.toNat = heap.size →
      reference ∉ allocated.map Prod.snd) ∧
    allocated.length = heap.size ∧
    (∀ place className reference, allocated[place]? = some (className, reference) →
      reference.index.toNat = place ∧
        ∃ object, heap.object reference = .ok object ∧ object.className = className) ∧
    (∀ reference fault, heap.object reference = .error fault ↔
      heap.size ≤ reference.index.toNat ∧ fault = .invalidReference reference) ∧
    (∀ (call : Call) (reference : ObjectRef), call.object? = some reference →
      let outcome := call.perform.attempt heap
      (∀ other, outcome.1 = .error (.invalidReference other) ↔
        heap.size ≤ reference.index.toNat ∧ other = reference) ∧
      outcome.2.withoutMonitors = heap.withoutMonitors ∧
      ∀ index, index ≠ reference.index.toNat →
        outcome.2.monitorAt index = heap.monitorAt index) ∧
    ∀ (first second : Call) (one other : ObjectRef), first.object? = some one →
      second.object? = some other → one ≠ other →
      log [second, first] heap = (log [first, second] heap).reverse ∧
        after [second, first] heap = after [first, second] heap := by
  intro heap allocated
  have stores : heap.Stores capacity allocated := (stores_empty capacity).after calls
  refine ⟨stores.size_le, stores.allocate_eq_error_iff, stores.allocate_eq_ok_iff fewer,
    fun reference next => stores.not_mem_of_index fewer (Nat.le_of_eq next.symm),
    stores.length_eq, fun place className reference found => ?_, object_eq_error_iff heap,
    fun call reference about => ?_, fun first second one other firstAbout secondAbout apart =>
      Call.commute firstAbout secondAbout apart heap⟩
  · exact ⟨stores.toNat_index fewer found, stores.exists_object fewer found⟩
  · have isLocal := Call.local_perform about
    refine ⟨Call.perform_eq_invalidReference_iff about heap, isLocal.withoutMonitors_eq heap,
      fun index away => ?_⟩
    have others : AgreeOn (· ≠ reference.index.toNat) heap (call.perform.attempt heap).2 :=
      isLocal.agreeOn_others (fun same => same rfl) heap
    exact (others.monitorAt_eq index away).symm

/-- On a heap for two objects a third allocation fails, between calls on the first two. -/
theorem append_only_two :
    let calls := [.allocate "Lock", .enter ⟨0⟩ ⟨7⟩, .allocate "Queue", .exit ⟨1⟩ ⟨7⟩,
      .allocate "Extra", .enter ⟨5⟩ ⟨7⟩]
    let heap := after calls (empty 2)
    heap.size < UInt32.size ∧
      (∀ className fault later, (allocate className).attempt heap = (.error fault, later) ↔
        heap.size = 2 ∧ fault = .outOfMemory ∧ later = heap) ∧
      heap.object ⟨0⟩ = .ok ⟨"Lock", some ⟨⟨7⟩, 1⟩⟩ ∧ heap.object ⟨1⟩ = .ok ⟨"Queue", none⟩ := by
  intro calls heap
  have fewer : heap.size < UInt32.size := by decide
  exact ⟨fewer, (append_only 2 calls fewer).2.1, rfl, rfl⟩

end BytecodeMachine.Heap
