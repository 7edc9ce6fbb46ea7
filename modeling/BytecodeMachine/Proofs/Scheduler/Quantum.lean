/-
This file shows that threads without a common object do not notice the quantum,
provided that each of them alone would come to its end without a fault and
without waiting. Main statement: whatever the quantum, a run of a new scheduler
succeeds after as many rounds as the longest of the threads has turns, the rounds
complete the instructions of all threads, and in the end the heap is the same.

In each round a thread has the turn that it would have had alone, so that no
round fails and none is without progress. How many turns a thread has alone, and
how many instructions each of them completes, is known from its length.
-/

import BytecodeMachine.Proofs.Scheduler.Independence
import BytecodeMachine.Proofs.Thread.Quantum

namespace BytecodeMachine.Scheduler

/-! ### Runs in which all rounds succeed -/

/-- The instructions that a round completes; a round that fails reports none. -/
def executedBy : Except Fault Round → Nat
  | .ok report => report.executed
  | .error _ => 0

/-- The instructions that a number of rounds complete. -/
def executedIn (scheduler : Scheduler) : Nat → Nat
  | 0 => 0
  | rounds + 1 => executedIn scheduler rounds +
    executedBy (round.attempt (scheduler.afterRounds rounds)).1

/-- A run goes on as long as there are threads and every round brings one of them forward. -/
theorem attempt_run_of_progress {scheduler : Scheduler} {count limit : Nat}
    (goesOn : ∀ earlier < count, (scheduler.afterRounds earlier).threads ≠ [] ∧
      ∃ report, (round.attempt (scheduler.afterRounds earlier)).1 = .ok report ∧
        report.madeProgress)
    (done : (scheduler.afterRounds count).threads = []) (enough : count ≤ limit) :
    (run limit).attempt scheduler = (.ok (some count), scheduler.afterRounds count) := by
  induction count generalizing scheduler limit with
  | zero => exact attempt_run_of_empty done limit
  | succ count inductionHypothesis =>
    obtain ⟨remaining, rfl⟩ := Nat.exists_eq_add_of_le' (Nat.le_of_add_left_le enough)
    obtain ⟨inhabited, report, success, forward⟩ := goesOn 0 (Nat.succ_pos count)
    have first : round.attempt scheduler = (.ok report, (round.attempt scheduler).2) :=
      Prod.ext success rfl
    rw [afterRounds_succ] at done ⊢
    have rest := @inductionHypothesis _ remaining (fun earlier sooner => ?_) done
      (Nat.le_of_succ_le_succ enough)
    · rw [attempt_run_succ (show scheduler.threads ≠ [] from inhabited), first]
      simp only [forward, if_true, rest]
      rfl
    · rw [← afterRounds_succ]
      exact goesOn (earlier + 1) (Nat.succ_lt_succ sooner)

/-! ### Sums and rounds of threads -/

/-- The sum of a count over all threads. -/
def total (count : Start → Nat) (starts : List Start) : Nat :=
  (starts.map count).foldr (· + ·) 0

theorem total_zero (starts : List Start) : total (fun _ => 0) starts = 0 := by
  induction starts with
  | nil => rfl
  | cons start others inductionHypothesis => exact (Nat.zero_add _).trans inductionHypothesis

theorem total_congr {one other : Start → Nat} {starts : List Start}
    (same : ∀ start ∈ starts, one start = other start) : total one starts = total other starts := by
  rw [total, total, List.map_congr_left same]

theorem total_add (one other : Start → Nat) (starts : List Start) :
    total one starts + total other starts =
      total (fun start => one start + other start) starts := by
  induction starts with
  | nil => rfl
  | cons start others inductionHypothesis =>
    simp only [total, List.map_cons, List.foldr_cons] at inductionHypothesis ⊢
    omega

theorem lt_foldr_max_iff (numbers : List Nat) (bound : Nat) :
    bound < numbers.foldr max 0 ↔ ∃ number ∈ numbers, bound < number := by
  induction numbers with
  | nil => simp
  | cons first others inductionHypothesis =>
    rw [List.foldr_cons, List.exists_mem_cons_iff, ← inductionHypothesis]
    omega

/-- The rounds that the longest of some threads needs: one for each full quantum of its
instructions, and one more. -/
def roundsFor (quantum : Nat) (length : Start → Nat) (starts : List Start) : Nat :=
  (starts.map fun start => length start / quantum + 1).foldr max 0

/-- A round is still needed when some thread has not ended before it. -/
theorem lt_roundsFor_iff {quantum : Nat} (positive : 0 < quantum) (length : Start → Nat)
    (starts : List Start) (count : Nat) :
    count < roundsFor quantum length starts ↔
      ∃ start ∈ starts, count * quantum ≤ length start := by
  simp only [roundsFor, lt_foldr_max_iff, List.mem_map, exists_exists_and_eq_and,
    Nat.lt_succ_iff, Nat.le_div_iff_mul_le positive]

/-- By the last round each thread has had turns for more instructions than it has. -/
theorem length_lt_of_mem {quantum : Nat} (positive : 0 < quantum) (length : Start → Nat)
    {starts : List Start} {start : Start} (member : start ∈ starts) :
    length start < roundsFor quantum length starts * quantum := by
  have beyond := Nat.lt_irrefl (roundsFor quantum length starts)
  rw [lt_roundsFor_iff positive] at beyond
  exact Nat.lt_of_not_le fun within => beyond ⟨start, member, within⟩

/-! ### Rounds of threads that come to their ends alone -/

section Rounds

variable {quantum count : Nat} {heap : Heap} {starts : List Start}

/-- If the turns of the threads alone succeed, their turns one after the other do, and complete as
many instructions together. The induction is on the threads: each finds the heap as if it had been
alone, whatever those before it have done. -/
theorem exists_ok_of_leftAlone {shared : Heap} {executed : Start → Nat}
    (apart : starts.Pairwise Start.Apart) (asAlone : AsAlone quantum heap count starts shared)
    (succeed : ∀ start ∈ starts, ∃ state,
      start.turnAlone quantum heap count = .ok ⟨executed start, state⟩) :
    ∃ report, (attemptRoundOf quantum (leftAlone quantum heap count starts) shared).1 =
      .ok report ∧ report.executed = total executed starts := by
  induction starts generalizing shared with
  | nil => exact ⟨_, rfl, rfl⟩
  | cons start others inductionHypothesis =>
    rw [List.pairwise_cons] at apart
    obtain ⟨mine, theirs⟩ := List.forall_mem_cons.mp asAlone
    obtain ⟨⟨state, turned⟩, succeedBehind⟩ := List.forall_mem_cons.mp succeed
    have sum : total executed (start :: others) = executed start + total executed others := rfl
    rw [leftAlone_cons, sum]
    cases gone : (start.alone quantum heap count).1.isTerminated with
    | true =>
      have none : leftAlone quantum heap count [start] = [] := by simp [leftAlone, gone]
      have still := Thread.attempt_turn_of_terminated gone quantum
        (start.alone quantum heap count).2
      have nothing : executed start = 0 :=
        congrArg Turn.executed (Except.ok.inj (turned.symm.trans (congrArg Prod.fst still)))
      rw [none, List.nil_append, nothing, Nat.zero_add]
      exact inductionHypothesis apart.2 theirs succeedBehind
    | false =>
      have single : leftAlone quantum heap count [start] =
          [(start.alone quantum heap count).1] := by simp [leftAlone, gone]
      obtain ⟨between, first, unnoticed, -⟩ := start.exists_turn_beside quantum heap mine
      have theirsStill : AsAlone quantum heap count others between := fun other member =>
        (unnoticed.mono fun _ refers mine =>
          (apart.1 other member).not_refersTo mine refers).symm.trans (theirs other member)
      obtain ⟨report, success, sumBehind⟩ :=
        inductionHypothesis apart.2 theirsStill succeedBehind
      rw [single, List.singleton_append, attemptRoundOf_cons, first, turned]
      simp only [success]
      exact ⟨_, rfl, congrArg (executed start + ·) sumBehind⟩

variable {length : Start → Nat} {scheduler : Scheduler}
  (ends : ∀ start ∈ starts, ∃ last, Thread.EndsAfter (length start) last (start.thread, heap))

include ends

theorem not_waitsAlone {start : Start} (member : start ∈ starts) :
    ¬ start.WaitsAlone quantum heap count := by
  obtain ⟨last, ending⟩ := ends start member
  rintro ⟨executed, waits⟩
  rw [Start.turnAlone_eq ending] at waits
  split at waits <;> cases waits

/-- A round succeeds, and no thread waits in it. Each thread completes as many instructions as the
quantum allows, or those that it has left. -/
theorem MadeUpOf.exists_round (madeUp : scheduler.MadeUpOf quantum heap starts count)
    (apart : starts.Pairwise Start.Apart) :
    ∃ report later, Scheduler.round.attempt scheduler = (.ok report, later) ∧
      later.MadeUpOf quantum heap starts (count + 1) ∧ report.waiting = [] ∧
      report.executed =
        total (fun start => min quantum (length start - count * quantum)) starts := by
  obtain ⟨report, success, sum⟩ := exists_ok_of_leftAlone apart madeUp.asAlone fun start member =>
    let ⟨_, ending⟩ := ends start member
    ⟨_, Start.turnAlone_eq ending quantum count⟩
  rw [← madeUp.threads_eq, ← madeUp.quantum_eq] at success
  have rounded : (Scheduler.round.attempt scheduler).1 = .ok report := by
    rw [attempt_round]
    rcases turns : attemptRoundOf scheduler.quantum scheduler.threads scheduler.heap with
      ⟨_ | report, threads, heap⟩ <;> rw [turns] at success <;> exact success
  obtain ⟨onward, waiting⟩ := madeUp.round apart (Prod.ext rounded rfl)
  refine ⟨report, _, Prod.ext rounded rfl, onward, ?_, sum⟩
  refine List.eq_nil_iff_forall_not_mem.mpr fun id listed => ?_
  obtain ⟨start, member, -, waits⟩ := (waiting id).mp listed
  exact not_waitsAlone ends member waits

end Rounds

/-! ### The heap at the end -/

/-- Nothing but monitors is ever changed by turns one after the other. -/
theorem withoutMonitors_attemptRoundOf {threads : List Thread}
    (wellFormed : ∀ thread ∈ threads, thread.WellFormed) (quantum : Nat) (heap : Heap) :
    (attemptRoundOf quantum threads heap).2.2.withoutMonitors = heap.withoutMonitors :=
  @keeps_heap_attemptRoundOf (fun next => next.withoutMonitors = heap.withoutMonitors) _ _
    (fun thread member next same =>
      (Thread.withoutMonitors_turn (wellFormed thread member) quantum next).trans same) _ rfl

theorem keeps_withoutMonitors_round (rest : Heap) :
    round.Keeps fun scheduler =>
      scheduler.WellFormed ∧ scheduler.heap.withoutMonitors = rest := by
  rintro scheduler ⟨wellFormed, rfl⟩
  refine ⟨keeps_round scheduler wellFormed, ?_⟩
  have unchanged := withoutMonitors_attemptRoundOf wellFormed.thread_wellFormed
    scheduler.quantum scheduler.heap
  rw [attempt_round]
  rcases turns : attemptRoundOf scheduler.quantum scheduler.threads scheduler.heap with
    ⟨_ | report, threads, heap⟩ <;> rw [turns] at unchanged <;> exact unchanged

/-- A heap is left as threads leave it that each had a copy for themselves: what a thread refers to
has the monitor that the thread alone leaves on it, and everything else is as it was. -/
structure LeftBy (starts : List Start) (length : Start → Nat) (heap final : Heap) : Prop where
  withoutMonitors_eq : final.withoutMonitors = heap.withoutMonitors
  referenced : ∀ start ∈ starts, ∀ last,
    Thread.EndsAfter (length start) last (start.thread, heap) →
      Heap.AgreeOn start.RefersTo final last.2
  unreferenced : Heap.AgreeOn (Unreferenced starts) heap final

theorem LeftBy.unique {starts : List Start} {length : Start → Nat} {heap one other : Heap}
    (ends : ∀ start ∈ starts, ∃ last,
      Thread.EndsAfter (length start) last (start.thread, heap))
    (first : LeftBy starts length heap one) (second : LeftBy starts length heap other) :
    one = other := by
  refine Heap.eq_of_withoutMonitors_eq
    (first.withoutMonitors_eq.trans second.withoutMonitors_eq.symm) fun index => ?_
  by_cases unreferenced : Unreferenced starts index
  · exact (first.unreferenced.monitorAt_eq index unreferenced).symm.trans
      (second.unreferenced.monitorAt_eq index unreferenced)
  · simp only [Unreferenced, not_forall, Classical.not_not] at unreferenced
    obtain ⟨start, member, refers⟩ := unreferenced
    obtain ⟨last, ending⟩ := ends start member
    exact ((first.referenced start member last ending).monitorAt_eq index refers).trans
      ((second.referenced start member last ending).monitorAt_eq index refers).symm

/-! ### New schedulers whose threads come to their ends alone -/

section New

variable {base scheduler : Scheduler} {starts : List Start} {length : Start → Nat}

theorem IsNew.wellFormed (new : IsNew base starts scheduler) (positive : 0 < base.quantum) :
    scheduler.WellFormed := by
  refine ⟨new.quantum_eq ▸ positive, fun thread present => ?_⟩
  rw [new.threads_eq] at present
  obtain ⟨start, -, rfl⟩ := List.mem_map.mp present
  exact start.stemsFrom_thread.wellFormed

theorem IsNew.exists_endsAfter (new : IsNew base starts scheduler)
    (ends : ∀ start ∈ starts, start.EndsAlone base.heap (length start)) :
    ∀ start ∈ starts, ∃ last,
      Thread.EndsAfter (length start) last (start.thread, base.heap) :=
  fun start member => (ends start member).exists_endsAfter (new.isTerminated_eq_false member)

variable (new : IsNew base starts scheduler) (positive : 0 < base.quantum)
  (apart : starts.Pairwise Start.Apart)
  (ends : ∀ start ∈ starts, start.EndsAlone base.heap (length start))

include new apart ends

theorem madeUpOf_afterRounds (count : Nat) :
    (scheduler.afterRounds count).MadeUpOf base.quantum base.heap starts count := by
  induction count with
  | zero => exact new.madeUpOf
  | succ count inductionHypothesis =>
    obtain ⟨report, later, rounded, madeUp, -⟩ :=
      inductionHypothesis.exists_round (new.exists_endsAfter ends) apart
    rw [afterRounds, rounded]
    exact madeUp

/-- Each thread has completed as many instructions as its turns allow, or all of its own. -/
theorem executedIn_eq_total (count : Nat) :
    scheduler.executedIn count =
      total (fun start => min (count * base.quantum) (length start)) starts := by
  induction count with
  | zero =>
    simp only [executedIn, Nat.zero_mul, Nat.zero_min, total_zero]
  | succ count inductionHypothesis =>
    obtain ⟨report, later, rounded, -, -, sum⟩ :=
      (madeUpOf_afterRounds new apart ends count).exists_round (new.exists_endsAfter ends) apart
    rw [executedIn, rounded, inductionHypothesis, executedBy, sum, total_add]
    refine total_congr fun start _ => ?_
    rw [Nat.succ_mul]
    omega

include positive

/-- As long as there are threads each round brings one forward: if it did not, all of them would
wait. -/
theorem exists_progress {count : Nat} (inhabited : (scheduler.afterRounds count).threads ≠ []) :
    ∃ report, (round.attempt (scheduler.afterRounds count)).1 = .ok report ∧
      report.madeProgress := by
  obtain ⟨report, later, rounded, -, noneWaits, -⟩ :=
    (madeUpOf_afterRounds new apart ends count).exists_round (new.exists_endsAfter ends) apart
  refine ⟨report, congrArg Prod.fst rounded, ?_⟩
  by_contra idle
  have wellFormed := keeps_afterRounds keeps_round (new.wellFormed positive) count
  have stalled := stalled_of_idle_round wellFormed rounded (Bool.eq_false_iff.mpr idle)
  cases (attempt_round_of_stalled wellFormed stalled).symm.trans rounded
  exact inhabited (List.map_eq_nil_iff.mp noneWaits)

theorem threads_eq_nil_iff (count : Nat) :
    (scheduler.afterRounds count).threads = [] ↔
      roundsFor base.quantum length starts ≤ count := by
  rw [(madeUpOf_afterRounds new apart ends count).threads_eq, ← Nat.not_lt,
    lt_roundsFor_iff positive, List.eq_nil_iff_forall_not_mem]
  constructor
  · rintro none ⟨start, member, within⟩
    obtain ⟨last, ending⟩ := new.exists_endsAfter ends start member
    have alive := (Start.endsAfter_alone ending base.quantum within).1
    exact none _ (mem_leftAlone.mpr ⟨start, member, rfl, alive⟩)
  · rintro beyond thread present
    obtain ⟨start, member, rfl, alive⟩ := mem_leftAlone.mp present
    obtain ⟨last, ending⟩ := new.exists_endsAfter ends start member
    by_cases within : count * base.quantum ≤ length start
    · exact beyond ⟨start, member, within⟩
    · rw [Start.alone_eq_last ending base.quantum (Nat.lt_of_not_le within),
        ending.isTerminated_last] at alive
      cases alive

/-- The run succeeds after the rounds in which all threads have come to their ends. -/
theorem attempt_run_of_ends :
    let rounds := roundsFor base.quantum length starts
    (∀ limit, rounds ≤ limit →
      (run limit).attempt scheduler = (.ok (some rounds), scheduler.afterRounds rounds)) ∧
      (scheduler.afterRounds rounds).threads = [] ∧
      scheduler.executedIn rounds = total length starts := by
  intro rounds
  have done := (threads_eq_nil_iff new positive apart ends rounds).mpr (Nat.le_refl rounds)
  refine ⟨fun limit => attempt_run_of_progress (fun earlier sooner => ?_) done, done, ?_⟩
  · have inhabited : (scheduler.afterRounds earlier).threads ≠ [] :=
      mt (threads_eq_nil_iff new positive apart ends earlier).mp (Nat.not_le_of_lt sooner)
    exact ⟨inhabited, exists_progress new positive apart ends inhabited⟩
  · rw [executedIn_eq_total new apart ends]
    exact total_congr fun start member =>
      Nat.min_eq_right (Nat.le_of_lt (length_lt_of_mem positive length member))

theorem leftBy_of_ends :
    LeftBy starts length base.heap
      (scheduler.afterRounds (roundsFor base.quantum length starts)).heap := by
  have madeUp := madeUpOf_afterRounds new apart ends (roundsFor base.quantum length starts)
  refine ⟨?_, fun start member last ending => ?_, madeUp.unnoticed⟩
  · have kept := keeps_withoutMonitors_round scheduler.heap.withoutMonitors
    have rest := keeps_afterRounds kept ⟨new.wellFormed positive, rfl⟩
      (roundsFor base.quantum length starts)
    exact rest.2.trans (congrArg Heap.withoutMonitors new.heap_eq)
  · have ended := Start.alone_eq_last ending base.quantum (length_lt_of_mem positive length member)
    exact ended ▸ madeUp.asAlone start member

end New

/-- If threads without a common object would each come to the end alone, after some number of
instructions and without a fault or waiting, then the quantum makes no difference to what becomes
of them together. A run of a new scheduler succeeds and leaves no thread. It takes as many rounds
as the longest thread has full quanta of instructions, and one more. The rounds complete the
instructions of all threads, and the heap in the end is the same whatever the quantum. -/
theorem quantum_unobservable {heap : Heap} {starts : List Start}
    (few : starts.length < UInt32.size) (apart : starts.Pairwise Start.Apart)
    {length : Start → Nat} (ends : ∀ start ∈ starts, start.EndsAlone heap (length start)) :
    ∃ final : Heap, ∀ config scheduler, Launched (createOver config heap) starts scheduler →
      let rounds := roundsFor (max config.quantum 1) length starts
      let last := scheduler.afterRounds rounds
      (∀ limit, rounds ≤ limit → (run limit).attempt scheduler = (.ok (some rounds), last)) ∧
        last.threads = [] ∧ scheduler.executedIn rounds = total length starts ∧
        last.heap = final := by
  have positive (config : SchedulerConfig) : 0 < (createOver config heap).quantum :=
    Nat.le_max_right config.quantum 1
  by_cases exist : ∃ config scheduler, Launched (createOver config heap) starts scheduler
  · obtain ⟨config, scheduler, launched⟩ := exist
    have new := launched.isNew few
    have left := leftBy_of_ends new (positive config) apart ends
    refine ⟨(scheduler.afterRounds (roundsFor (max config.quantum 1) length starts)).heap,
      fun other scheduler launched => ?_⟩
    have otherNew := launched.isNew few
    obtain ⟨ended, none, sum⟩ := attempt_run_of_ends otherNew (positive other) apart ends
    have otherLeft := leftBy_of_ends otherNew (positive other) apart ends
    exact ⟨ended, none, sum, otherLeft.unique (new.exists_endsAfter ends) left⟩
  · exact ⟨heap, fun config scheduler launched => absurd ⟨config, scheduler, launched⟩ exist⟩

/-- A thread that locks the first object and releases it, and one that does nothing once. -/
def unequal : List Start :=
  [locker 0, ⟨⟨1⟩, ⟨#[0x00], 0, 0⟩, []⟩]

/-- The two threads in a new scheduler. -/
def unequalOver (config : SchedulerConfig) : Scheduler :=
  let first := ((spawn (locker 0).method (locker 0).arguments).attempt
    (createOver config oneHeld)).2
  ((spawn ⟨#[0x00], 0, 0⟩ []).attempt first).2

/-- A quantum that divides the four instructions of the first thread, and one of no instruction,
which counts as one. -/
theorem unequal_quantum_unobservable :
    Launched (createOver { quantum := 2 } oneHeld) unequal (unequalOver { quantum := 2 }) ∧
    Launched (createOver { quantum := 0 } oneHeld) unequal (unequalOver { quantum := 0 }) ∧
    unequal.Pairwise Start.Apart ∧
    (∀ start ∈ unequal, start.EndsAlone oneHeld start.method.code.size) ∧
    (∃ last, (run 3).attempt (unequalOver { quantum := 2 }) = (.ok (some 3), last) ∧
      (unequalOver { quantum := 2 }).executedIn 3 = 5 ∧
      ∃ other, (run 7).attempt (unequalOver { quantum := 0 }) = (.ok (some 5), other) ∧
        (unequalOver { quantum := 0 }).executedIn 5 = 5 ∧ last.heap = other.heap) := by
  have launched (config : SchedulerConfig) :
      Launched (createOver config oneHeld) unequal (unequalOver config) :=
    (Launched.none.spawned rfl).spawned rfl
  have apart : unequal.Pairwise Start.Apart := by
    simp [Start.Apart, unequal]
  have ends : ∀ start ∈ unequal, start.EndsAlone oneHeld start.method.code.size := by
    refine fun start member => ⟨5, _, Prod.ext ?_ rfl⟩
    revert start
    decide +kernel
  obtain ⟨final, same⟩ := quantum_unobservable (by decide) apart ends
  obtain ⟨two, -, sumTwo, finalTwo⟩ := same _ _ (launched { quantum := 2 })
  obtain ⟨none, -, sumNone, finalNone⟩ := same _ _ (launched { quantum := 0 })
  exact ⟨launched _, launched _, apart, ends, _, two 3 (by decide), sumTwo, _, none 7 (by decide),
    sumNone, finalTwo.trans finalNone.symm⟩

end BytecodeMachine.Scheduler
