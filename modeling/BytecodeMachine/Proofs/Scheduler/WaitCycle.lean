/-
This file says why a run ends as a deadlock. Main statement: of the threads that
are blocked then, one waits for a monitor that was left locked by a thread that
has ended, or some of them wait for each other in a cycle.

All threads in the table are stuck, and whoever holds a monitor was started at
some time. If none of the holders has ended, each thread in the table waits for
another one there. Whoever follows these from thread to thread comes back to
where they have been, since the table is finite, and has gone round a cycle.
-/

import Mathlib.Data.Set.Finite.List
import Mathlib.Dynamics.PeriodicPts.Defs
import Mathlib.Order.Preorder.Finite
import BytecodeMachine.Proofs.Scheduler.Deadlock
import BytecodeMachine.Proofs.Scheduler.Faults
import BytecodeMachine.Proofs.Scheduler.Past

namespace BytecodeMachine.Scheduler

/-! ### Cycles -/

/-- Where everyone has another one to follow there is a cycle of at least two. -/
theorem exists_cycle {α : Type} {follows : α → α → Prop} {members : List α}
    (inhabited : members ≠ []) (irreflexive : ∀ member, ¬ follows member member)
    (next : ∀ member ∈ members, ∃ other ∈ members, follows member other) :
    ∃ cycle : Cycle α, cycle.Nodup ∧ 2 ≤ cycle.length ∧ (∀ member ∈ cycle, member ∈ members) ∧
      cycle.Chain follows := by
  obtain ⟨first, present⟩ := List.exists_mem_of_ne_nil members inhabited
  have : Nonempty α := ⟨first⟩
  choose! successor inside following using next
  have stays (start : α) (member : start ∈ members) (count : Nat) :
      successor^[count] start ∈ members := by
    induction count with
    | zero => exact member
    | succ count inductionHypothesis =>
      rw [Function.iterate_succ_apply']
      exact inside _ inductionHypothesis
  obtain ⟨early, late, before, again⟩ :=
    Set.Finite.exists_lt_map_eq_of_forall_mem (stays first present) (List.finite_toSet members)
  have met := stays first present early
  have periodic : successor^[early] first ∈ Function.periodicPts successor := by
    refine Function.mk_mem_periodicPts (Nat.sub_pos_of_lt before) ?_
    rw [Function.IsPeriodicPt, Function.IsFixedPt, ← Function.iterate_add_apply,
      Nat.sub_add_cancel before.le, again]
  refine ⟨Function.periodicOrbit successor (successor^[early] first),
    Function.nodup_periodicOrbit, ?_, fun member round => ?_, ?_⟩
  · have more := Function.minimalPeriod_pos_of_mem_periodicPts periodic
    have notOne : Function.minimalPeriod successor (successor^[early] first) ≠ 1 := by
      rw [ne_eq, Function.minimalPeriod_eq_one_iff_isFixedPt]
      intro fixed
      have itself := following _ met
      rw [fixed] at itself
      exact irreflexive _ itself
    rw [Function.periodicOrbit_length]
    omega
  · obtain ⟨count, rfl⟩ := (Function.mem_periodicOrbit_iff periodic).mp round
    exact stays _ met count
  · rw [Function.periodicOrbit_chain' _ periodic]
    intro count
    rw [Function.iterate_succ_apply']
    exact following _ (stays _ met count)

/-! ### Waiting for each other -/

/-- A thread of the table waits for another thread: it is about to enter the monitor of an object
that the other has locked. -/
def WaitsFor (scheduler : Scheduler) (waiting owner : ThreadId) : Prop :=
  ∃ thread ∈ scheduler.threads, thread.id = waiting ∧ ∃ frame reference,
    thread.current? = some frame ∧ frame.AboutToEnter reference ∧
    scheduler.heap.LockedBy reference.index.toNat owner ∧ owner ≠ waiting

theorem not_waitsFor_self (scheduler : Scheduler) (id : ThreadId) : ¬ scheduler.WaitsFor id id := by
  rintro ⟨-, -, -, -, -, -, -, -, other⟩
  exact other rfl

theorem Stalled.exists_waitsFor {scheduler : Scheduler} (stalled : scheduler.Stalled)
    {waiting : ThreadId} (member : waiting ∈ scheduler.ids) :
    ∃ owner, scheduler.WaitsFor waiting owner := by
  obtain ⟨thread, present, rfl⟩ := List.mem_map.mp member
  obtain ⟨frame, reference, owner, current, entering, locked, other⟩ := stalled thread present
  exact ⟨owner, thread, present, rfl, frame, reference, current, entering, locked, other⟩

/-- A run that ends as a deadlock leaves a table in which every thread is stuck. -/
theorem stalled_of_deadlock {scheduler later : Scheduler} {limit : Nat} {blocked : List ThreadId}
    (wellFormed : scheduler.WellFormed)
    (deadlocked : (run limit).attempt scheduler = (.error (.deadlock blocked), later)) :
    blocked = later.ids ∧ later.threads ≠ [] ∧ later.Stalled := by
  obtain ⟨before, report, inOrder, inhabited, last, idle, names⟩ :=
    exists_idle_round_of_deadlock keeps_round wellFormed deadlocked
  have stalled := stalled_of_idle_round inOrder last idle
  rw [attempt_round_of_stalled inOrder stalled] at last
  cases last
  refine ⟨names, ?_, stalled.rewound⟩
  exact fun empty => inhabited (List.map_eq_nil_iff.mp empty)

/-- When a run ends as a deadlock, the threads named are all those in the table, and each of
them is about to enter a monitor that another thread holds. If nobody but the threads ever
touched a monitor, then one of these is held by a thread that was started, reported as ended and
has left the table, or some of the threads named wait for each other in a cycle. -/
theorem deadlock_has_cause {scheduler later : Scheduler} {started ended blocked : List ThreadId}
    {limit : Nat} (past : Past Heap.Allocates scheduler started ended)
    (deadlocked : (run limit).attempt scheduler = (.error (.deadlock blocked), later)) :
    blocked = later.threads.map Thread.id ∧ blocked.Nodup ∧
    (∀ thread ∈ later.threads, thread.StuckAgainst later.heap) ∧
    ∃ more, Past Heap.Allocates later started (ended ++ more) ∧
      ((∃ waiting ∈ blocked, ∃ owner, later.WaitsFor waiting owner ∧ owner ∈ started ∧
          owner ∈ ended ++ more ∧ owner ∉ blocked) ∨
        ∃ cycle : Cycle ThreadId, cycle.Nodup ∧ 2 ≤ cycle.length ∧
          (∀ waiting ∈ cycle, waiting ∈ blocked) ∧ cycle.Chain later.WaitsFor) := by
  obtain ⟨rfl, inhabited, stalled⟩ := stalled_of_deadlock past.reachable.wellFormed deadlocked
  obtain ⟨more, extended⟩ := past.run limit
  rw [deadlocked] at extended
  have accounts := extended.accountsFor
  refine ⟨rfl, accounts.distinct, stalled, more, extended, ?_⟩
  by_cases left : ∃ waiting ∈ later.ids, ∃ owner, later.WaitsFor waiting owner ∧
      owner ∉ later.ids
  · obtain ⟨waiting, member, owner, waits, gone⟩ := left
    have ⟨_, _, _, _, _, _, _, locked, _⟩ := waits
    have known := extended.owner_mem locked
    exact Or.inl ⟨waiting, member, owner, waits, known,
      (accounts.mem_or_ended owner known).resolve_left gone, gone⟩
  · refine Or.inr (exists_cycle ?_ later.not_waitsFor_self fun waiting member => ?_)
    · exact fun empty => inhabited (List.map_eq_nil_iff.mp empty)
    · obtain ⟨owner, waits⟩ := stalled.exists_waitsFor member
      refine ⟨owner, Classical.byContradiction fun gone => left ?_, waits⟩
      exact ⟨waiting, member, owner, waits, gone⟩

/-- Two threads that lock two objects in opposite order wait for each other. -/
theorem deadlock_of_crossing :
    Past Heap.Allocates crossing [⟨0⟩, ⟨1⟩] [] ∧
    ∃ later, (run 1).attempt crossing = (.error (.deadlock [⟨0⟩, ⟨1⟩]), later) ∧
      ∃ cycle : Cycle ThreadId, cycle.Nodup ∧ 2 ≤ cycle.length ∧
        (∀ waiting ∈ cycle, waiting ∈ [⟨0⟩, ⟨1⟩]) ∧ cycle.Chain later.WaitsFor := by
  have past : Past Heap.Allocates crossing [⟨0⟩, ⟨1⟩] [] :=
    ((((((Past.create _).outside ⟨"A", rfl⟩).outside ⟨"B", rfl⟩).spawn _ _).spawn _ _).round).round
  have deadlocked : (run 1).attempt crossing =
      (.error (.deadlock [⟨0⟩, ⟨1⟩]), ((run 1).attempt crossing).2) := Prod.ext rfl rfl
  refine ⟨past, _, deadlocked, ?_⟩
  obtain ⟨-, -, -, more, -, ⟨_, -, owner, -, known, -, gone⟩ | cycle⟩ :=
    deadlock_has_cause past deadlocked
  · exact absurd known gone
  · exact cycle

end BytecodeMachine.Scheduler
