/-
This file relates the monitors of a heap to the calls that were made on it.
The balance of a thread on an object is the number of its calls that entered
the monitor less the number of those that left it. Main statement: after any
calls on a new heap, in any order and by any threads, the monitors are exactly
what the balances say, and so is the answer to the next call.
-/

import BytecodeMachine.Proofs.Heap.Locks

namespace BytecodeMachine.Heap

/-! ### Calls -/

/-- A call by which a heap is changed. -/
inductive Call
  | allocate (className : String)
  | enter (reference : ObjectRef) (thread : ThreadId)
  | exit (reference : ObjectRef) (thread : ThreadId)
deriving DecidableEq

/-- What a call answers when it succeeds. -/
inductive Answer
  | allocated (reference : ObjectRef)
  | entry (entry : Entry)
  | exited
deriving DecidableEq

/-- Performs a call. -/
def Call.perform : Call → Action Heap Answer
  | allocate className => .allocated <$> Heap.allocate className
  | enter reference thread => .entry <$> Heap.enter reference thread
  | exit reference thread => (fun _ => .exited) <$> Heap.exit reference thread

/-- A call that was made together with its answer or fault. -/
abbrev Record : Type :=
  Call × Except Fault Answer

/-- The calls with their answers, in the order in which they were made. -/
def log : List Call → Heap → List Record
  | [], _ => []
  | call :: later, heap =>
    (call, (call.perform.attempt heap).1) :: log later (call.perform.attempt heap).2

/-- The heap that calls leave. -/
def after : List Call → Heap → Heap
  | [], heap => heap
  | call :: later, heap => after later (call.perform.attempt heap).2

theorem log_concat (calls : List Call) (call : Call) (heap : Heap) :
    log (calls ++ [call]) heap =
      log calls heap ++ [(call, (call.perform.attempt (after calls heap)).1)] := by
  induction calls generalizing heap with
  | nil => rfl
  | cons first later inductionHypothesis =>
    exact congrArg (List.cons _) (inductionHypothesis _)

/-! ### Balances -/

/-- Whether a call let the thread enter the monitor of the object at an index. -/
def Entered (index : Nat) (thread : ThreadId) : Record → Bool
  | (.enter reference entering, .ok (.entry (.acquired _))) =>
    reference.index.toNat == index && entering == thread
  | _ => false

/-- Whether a call let the thread leave the monitor of the object at an index. -/
def Exited (index : Nat) (thread : ThreadId) : Record → Bool
  | (.exit reference leaving, .ok .exited) =>
    reference.index.toNat == index && leaving == thread
  | _ => false

/-- How much more often a thread has entered the monitor of an object than it has left it. -/
def balance (records : List Record) (index : Nat) (thread : ThreadId) : Int :=
  records.countP (Entered index thread) - records.countP (Exited index thread)

theorem balance_concat (records : List Record) (record : Record) (index : Nat)
    (thread : ThreadId) :
    balance (records ++ [record]) index thread =
      balance records index thread + (if Entered index thread record then 1 else 0) -
        (if Exited index thread record then 1 else 0) := by
  simp only [balance, List.countP_append, List.countP_singleton]
  split <;> split <;> omega

end BytecodeMachine.Heap

namespace BytecodeMachine

/-- How often a thread has entered a monitor. -/
def Monitor.entriesOf (thread : ThreadId) : Option Monitor → Nat
  | none => 0
  | some monitor => if monitor.owner = thread then monitor.entries else 0

namespace Heap

/-- A heap agrees with records of calls when each thread has entered each monitor as often as its
balance says, and no monitor is kept without entries or with more than it can count. -/
structure AgreesWith (heap : Heap) (records : List Record) : Prop where
  balance_eq (index : Nat) (thread : ThreadId) :
    balance records index thread = Monitor.entriesOf thread (heap.monitorAt index)
  entries_pos (index : Nat) (monitor : Monitor) : heap.monitorAt index = some monitor →
    0 < monitor.entries
  entries_le (index : Nat) (monitor : Monitor) : heap.monitorAt index = some monitor →
    monitor.entries ≤ Monitor.entryLimit

theorem agreesWith_empty (capacity : Nat) : (empty capacity).AgreesWith [] := by
  have free (index : Nat) : (empty capacity).monitorAt index = none := rfl
  refine ⟨fun index thread => ?_, fun index monitor locked => ?_, fun index monitor locked => ?_⟩
  · rw [free]
    rfl
  · cases (free index).symm.trans locked
  · cases (free index).symm.trans locked

namespace AgreesWith

variable {heap : Heap} {records : List Record}

/-- A call that leaves all monitors and all balances as they were keeps the agreement. -/
theorem of_unchanged (agrees : heap.AgreesWith records) {later : Heap} {record : Record}
    (monitors : ∀ index, later.monitorAt index = heap.monitorAt index)
    (noEntry : ∀ index thread, Entered index thread record = false)
    (noExit : ∀ index thread, Exited index thread record = false) :
    later.AgreesWith (records ++ [record]) := by
  refine ⟨fun index thread => ?_, fun index monitor locked => ?_, fun index monitor locked => ?_⟩
  · rw [balance_concat, noEntry, noExit, monitors, agrees.balance_eq]
    simp
  · exact agrees.entries_pos index monitor (monitors index ▸ locked)
  · exact agrees.entries_le index monitor (monitors index ▸ locked)

/-- A call that gives one object another monitor keeps the agreement when it changes the
balances on that object as it changes the entries. -/
theorem of_setMonitor (agrees : heap.AgreesWith records) {reference : ObjectRef}
    {monitor : Option Monitor} {record : Record} (valid : reference.index.toNat < heap.size)
    (here : ∀ thread, balance (records ++ [record]) reference.index.toNat thread =
      Monitor.entriesOf thread monitor)
    (elsewhere : ∀ index thread, index ≠ reference.index.toNat →
      Entered index thread record = false ∧ Exited index thread record = false)
    (counts : ∀ next, monitor = some next → 0 < next.entries ∧ next.entries ≤ Monitor.entryLimit) :
    (heap.setMonitor reference monitor).AgreesWith (records ++ [record]) := by
  have bounds (index : Nat) (next : Monitor)
      (locked : (heap.setMonitor reference monitor).monitorAt index = some next) :
      0 < next.entries ∧ next.entries ≤ Monitor.entryLimit := by
    rw [monitorAt_setMonitor valid] at locked
    split at locked
    · exact counts next locked
    · exact ⟨agrees.entries_pos index next locked, agrees.entries_le index next locked⟩
  refine ⟨fun index thread => ?_, fun index next locked => (bounds index next locked).1,
    fun index next locked => (bounds index next locked).2⟩
  rw [monitorAt_setMonitor valid]
  split
  · next same => rw [← same, here]
  · next different =>
    obtain ⟨noEntry, noExit⟩ := elsewhere index thread (Ne.symm different)
    rw [balance_concat, noEntry, noExit, agrees.balance_eq]
    simp

theorem perform_allocate (agrees : heap.AgreesWith records) (className : String) :
    ((Call.allocate className).perform.attempt heap).2.AgreesWith
      (records ++ [(.allocate className, ((Call.allocate className).perform.attempt heap).1)]) := by
  rw [Call.perform, Action.attempt_map]
  exact agrees.of_unchanged (monitorAt_allocate className heap) (fun _ _ => rfl) fun _ _ => rfl

theorem perform_enter (agrees : heap.AgreesWith records) (reference : ObjectRef)
    (thread : ThreadId) :
    ((Call.enter reference thread).perform.attempt heap).2.AgreesWith
      (records ++ [(.enter reference thread,
        ((Call.enter reference thread).perform.attempt heap).1)]) := by
  rw [Call.perform, Action.attempt_map]
  by_cases valid : reference.index.toNat < heap.size
  · have elsewhere (count index : Nat) (other : ThreadId) (away : index ≠ reference.index.toNat) :
        Entered index other (.enter reference thread, .ok (.entry (.acquired count))) = false ∧
          Exited index other (.enter reference thread, .ok (.entry (.acquired count))) = false := by
      simp [Entered, Exited, Ne.symm away]
    rw [attempt_enter valid]
    split
    · next free =>
      refine agrees.of_setMonitor valid (fun other => ?_) (elsewhere 1) ?_
      · rw [balance_concat, agrees.balance_eq, free]
        by_cases own : thread = other <;>
          simp [Entered, Exited, Monitor.entriesOf, Except.map, own]
      · rintro next ⟨⟩
        exact ⟨Nat.one_pos, show 1 ≤ Monitor.entryLimit by decide⟩
    · next monitor locked =>
      split
      · next own =>
        split
        · next room =>
          refine agrees.of_setMonitor valid (fun other => ?_) (elsewhere _) ?_
          · rw [balance_concat, agrees.balance_eq, locked]
            by_cases same : thread = other <;>
              simp [Entered, Exited, Monitor.entriesOf, Except.map, own, same]
          · rintro next ⟨⟩
            exact ⟨Nat.succ_pos _, room⟩
        · exact agrees.of_unchanged (fun _ => rfl) (fun _ _ => rfl) fun _ _ => rfl
      · exact agrees.of_unchanged (fun _ => rfl) (fun _ _ => rfl) fun _ _ => rfl
  · rw [enter, attempt_onMonitor_of_dangling _ (Nat.le_of_not_lt valid)]
    exact agrees.of_unchanged (fun _ => rfl) (fun _ _ => rfl) fun _ _ => rfl

theorem perform_exit (agrees : heap.AgreesWith records) (reference : ObjectRef)
    (thread : ThreadId) :
    ((Call.exit reference thread).perform.attempt heap).2.AgreesWith
      (records ++ [(.exit reference thread,
        ((Call.exit reference thread).perform.attempt heap).1)]) := by
  rw [Call.perform, Action.attempt_map]
  by_cases valid : reference.index.toNat < heap.size
  · rw [attempt_exit valid]
    split
    · exact agrees.of_unchanged (fun _ => rfl) (fun _ _ => rfl) fun _ _ => rfl
    · next monitor locked =>
      have entered := agrees.entries_pos _ _ locked
      have counted := agrees.entries_le _ _ locked
      split
      · next own =>
        refine agrees.of_setMonitor valid (fun other => ?_) (fun index other away => ?_) ?_
        · rw [balance_concat, agrees.balance_eq, locked]
          by_cases same : thread = other <;> by_cases last : monitor.entries - 1 = 0 <;>
            simp [Entered, Exited, Monitor.entriesOf, Except.map, own, same, last] <;> omega
        · simp [Entered, Exited, Except.map, Ne.symm away]
        · intro next left
          split at left <;> cases left
          exact ⟨by dsimp only; omega, by dsimp only; omega⟩
      · exact agrees.of_unchanged (fun _ => rfl) (fun _ _ => rfl) fun _ _ => rfl
  · rw [exit, attempt_onMonitor_of_dangling _ (Nat.le_of_not_lt valid)]
    exact agrees.of_unchanged (fun _ => rfl) (fun _ _ => rfl) fun _ _ => rfl

theorem perform (agrees : heap.AgreesWith records) (call : Call) :
    (call.perform.attempt heap).2.AgreesWith
      (records ++ [(call, (call.perform.attempt heap).1)]) := by
  cases call with
  | allocate className => exact agrees.perform_allocate className
  | enter reference thread => exact agrees.perform_enter reference thread
  | exit reference thread => exact agrees.perform_exit reference thread

/-- Agreement is kept by any calls, made in any order. -/
theorem after (agrees : heap.AgreesWith records) (calls : List Call) :
    (Heap.after calls heap).AgreesWith (records ++ log calls heap) := by
  induction calls generalizing heap records with
  | nil => rwa [log, List.append_nil]
  | cons call later inductionHypothesis =>
    rw [log, List.append_cons]
    exact inductionHypothesis (agrees.perform call)

/-! ### What agreement says -/

theorem balance_of_monitorAt (agrees : heap.AgreesWith records) {index : Nat} {monitor : Monitor}
    (locked : heap.monitorAt index = some monitor) :
    balance records index monitor.owner = monitor.entries := by
  rw [agrees.balance_eq, locked, Monitor.entriesOf, if_pos rfl]

/-- The threads with a positive balance are those that hold the monitor. -/
theorem balance_pos_iff (agrees : heap.AgreesWith records) (index : Nat) (thread : ThreadId) :
    0 < balance records index thread ↔ heap.LockedBy index thread := by
  constructor
  · intro positive
    rw [agrees.balance_eq] at positive
    cases locked : heap.monitorAt index with
    | none => simp [locked, Monitor.entriesOf] at positive
    | some monitor =>
      by_cases own : monitor.owner = thread
      · exact ⟨monitor, locked, own⟩
      · simp [locked, Monitor.entriesOf, own] at positive
  · rintro ⟨monitor, locked, rfl⟩
    rw [agrees.balance_of_monitorAt locked]
    exact Int.natCast_pos.mpr (agrees.entries_pos index monitor locked)

theorem balance_pos_iff_owner (agrees : heap.AgreesWith records) {index : Nat} {monitor : Monitor}
    (locked : heap.monitorAt index = some monitor) (thread : ThreadId) :
    0 < balance records index thread ↔ thread = monitor.owner := by
  have owned : heap.LockedBy index monitor.owner := ⟨monitor, locked, rfl⟩
  rw [agrees.balance_pos_iff]
  constructor
  · intro holds
    exact holds.owner_unique owned
  · rintro rfl
    exact owned

theorem balance_nonneg (agrees : heap.AgreesWith records) (index : Nat) (thread : ThreadId) :
    0 ≤ balance records index thread := by
  rw [agrees.balance_eq]
  exact Int.natCast_nonneg _

/-- An object is free exactly when nobody has a balance on it. -/
theorem monitorAt_eq_none_iff_balance (agrees : heap.AgreesWith records) (index : Nat) :
    heap.monitorAt index = none ↔ ∀ thread, balance records index thread = 0 := by
  rw [monitorAt_eq_none_iff]
  constructor
  · intro free thread
    have noneHeld := mt (agrees.balance_pos_iff index thread).mp (free thread)
    have known := agrees.balance_nonneg index thread
    omega
  · intro zero thread locked
    have held := (agrees.balance_pos_iff index thread).mpr locked
    have known := zero thread
    omega

/-- What a thread is told that wants to enter the monitor of an existing object. -/
theorem enter_answer (agrees : heap.AgreesWith records) {reference : ObjectRef}
    (valid : reference.index.toNat < heap.size) (thread : ThreadId) :
    (∀ count, ((enter reference thread).attempt heap).1 = .ok (.acquired count) →
        (count : Int) = balance records reference.index.toNat thread + 1) ∧
      (∀ owner, ((enter reference thread).attempt heap).1 = .ok (.contended owner) ↔
        owner ≠ thread ∧ 0 < balance records reference.index.toNat owner) ∧
      ∀ fault, ((enter reference thread).attempt heap).1 = .error fault →
        fault = .entryCountOverflow thread ∧
          balance records reference.index.toNat thread = Monitor.entryLimit := by
  refine ⟨fun count answer => ?_, fun owner => ?_, fun fault answer => ?_⟩
  · rw [agrees.balance_eq]
    rw [attempt_enter valid] at answer
    split at answer
    · next free =>
      cases answer
      rw [free]
      rfl
    · next monitor locked =>
      split at answer
      · next own =>
        split at answer <;> cases answer
        rw [locked, Monitor.entriesOf, if_pos own]
        rfl
      · cases answer
  · rw [agrees.balance_pos_iff]
    constructor
    · intro answer
      obtain ⟨-, locked, other⟩ := attempt_enter_eq_contended (Prod.ext answer rfl)
      exact ⟨other, locked⟩
    · rintro ⟨other, locked⟩
      rw [attempt_enter_of_lockedBy locked other]
  · rw [attempt_enter valid] at answer
    split at answer
    · cases answer
    · next monitor locked =>
      split at answer
      · next own =>
        split at answer
        · cases answer
        · next full =>
          cases answer
          subst own
          have counted := agrees.entries_le _ _ locked
          rw [agrees.balance_of_monitorAt locked]
          exact ⟨rfl, by omega⟩
      · cases answer

/-- What a thread is told that wants to leave the monitor of an existing object. -/
theorem exit_answer (agrees : heap.AgreesWith records) {reference : ObjectRef}
    (valid : reference.index.toNat < heap.size) (thread : ThreadId) :
    (((exit reference thread).attempt heap).1 = .ok () ↔
        0 < balance records reference.index.toNat thread) ∧
      ∀ fault, ((exit reference thread).attempt heap).1 = .error fault →
        fault.kind = .internalInconsistency := by
  rw [agrees.balance_pos_iff, attempt_exit valid]
  split
  · next free =>
    refine ⟨⟨nofun, fun locked => ?_⟩, ?_⟩
    · exact absurd locked ((monitorAt_eq_none_iff _ _).mp free thread)
    · rintro fault ⟨⟩
      rfl
  · next monitor locked =>
    split
    · next own => exact ⟨⟨fun _ => ⟨monitor, locked, own⟩, fun _ => rfl⟩, nofun⟩
    · next other =>
      refine ⟨⟨nofun, fun holds => ?_⟩, ?_⟩
      · have owner : heap.LockedBy reference.index.toNat monitor.owner := ⟨monitor, locked, rfl⟩
        exact absurd (owner.owner_unique holds) other
      · rintro fault ⟨⟩
        rfl

end AgreesWith

/-- A call that fails leaves the whole heap as it was. -/
theorem perform_of_error {heap later : Heap} {call : Call} {fault : Fault}
    (failed : call.perform.attempt heap = (.error fault, later)) : later = heap := by
  cases call with
  | allocate className =>
    rw [Call.perform, Action.attempt_map, Action.attempt, run_allocate] at failed
    split at failed <;> cases failed
    rfl
  | enter reference thread =>
    rw [Call.perform, Action.attempt_map, Prod.mk.injEq] at failed
    exact failed.2.symm.trans (attempt_enter_of_error (Except.error_of_map_eq_error failed.1))
  | exit reference thread =>
    rw [Call.perform, Action.attempt_map, Prod.mk.injEq] at failed
    exact failed.2.symm.trans (attempt_exit_of_error (Except.error_of_map_eq_error failed.1))

/-- Monitors account for the calls that were made. After any calls on a new heap no balance is
negative, and of every object at most one thread has a positive balance. The object is free
exactly when nobody has one; otherwise its monitor names that thread and counts its balance. The
balances also determine what a thread is told that wants to enter or to leave the monitor of an
existing object next, and a call that is refused changes nothing. -/
theorem monitors_account_for_calls (capacity : Nat) (calls : List Call) :
    let heap := after calls (empty capacity)
    let current := balance (log calls (empty capacity))
    (∀ index thread, 0 ≤ current index thread) ∧
    (∀ index first second, 0 < current index first → 0 < current index second →
      first = second) ∧
    (∀ index object, heap.objects[index]? = some object →
      (object.monitor = none ↔ ∀ thread, current index thread = 0) ∧
      ∀ monitor, object.monitor = some monitor →
        (∀ thread, 0 < current index thread ↔ thread = monitor.owner) ∧
        current index monitor.owner = monitor.entries) ∧
    (∀ (reference : ObjectRef) (thread : ThreadId), reference.index.toNat < heap.size →
      let index := reference.index.toNat
      let entering := ((enter reference thread).attempt heap).1
      let leaving := ((exit reference thread).attempt heap).1
      (∀ count, entering = .ok (.acquired count) → count =
        balance (log (calls ++ [.enter reference thread]) (empty capacity)) index thread) ∧
      (∀ owner, entering = .ok (.contended owner) ↔ owner ≠ thread ∧ 0 < current index owner) ∧
      (∀ fault, entering = .error fault →
        fault.kind = .internalInconsistency ∧ current index thread = UInt32.size - 1) ∧
      (leaving = .ok () ↔ 0 < current index thread) ∧
      (∀ fault, leaving = .error fault → fault.kind = .internalInconsistency)) ∧
    (∀ (call : Call) (fault : Fault) (later : Heap),
      call.perform.attempt heap = (.error fault, later) → later = heap) ∧
    (∀ (reference : ObjectRef) (thread owner : ThreadId) (later : Heap),
      (enter reference thread).attempt heap = (.ok (.contended owner), later) → later = heap) := by
  intro heap current
  have agrees : heap.AgreesWith (log calls (empty capacity)) :=
    (agreesWith_empty capacity).after calls
  refine ⟨agrees.balance_nonneg, fun index first second one two => ?_,
    fun index object found => ?_, fun reference thread valid => ?_,
    fun call fault later failed => perform_of_error failed,
    fun reference thread owner later refused => (attempt_enter_eq_contended refused).1⟩
  · have firstHolds := (agrees.balance_pos_iff index first).mp one
    have secondHolds := (agrees.balance_pos_iff index second).mp two
    exact firstHolds.owner_unique secondHolds
  · have here : heap.monitorAt index = object.monitor := by
      rw [monitorAt, found, Option.bind_some]
    refine ⟨here ▸ agrees.monitorAt_eq_none_iff_balance index, fun monitor locked => ?_⟩
    rw [locked] at here
    exact ⟨agrees.balance_pos_iff_owner here, agrees.balance_of_monitorAt here⟩
  · obtain ⟨acquired, contended, overflow⟩ := agrees.enter_answer valid thread
    obtain ⟨left, refused⟩ := agrees.exit_answer valid thread
    refine ⟨fun count entered => ?_, contended, fun fault failed => ?_, left, refused⟩
    · have answer : ((Call.enter reference thread).perform.attempt heap).1 =
          .ok (.entry (.acquired count)) := by
        rw [Call.perform, Action.attempt_map, entered]
        rfl
      rw [log_concat, balance_concat, answer, acquired count entered]
      simp [Entered, Exited]
    · obtain ⟨rfl, full⟩ := overflow fault failed
      exact ⟨rfl, full⟩

end Heap

end BytecodeMachine
