/-
This file shows that a run ends when no thread can jump back. A return jumps to
an address that is saved in a local variable, and no instruction makes such an
address; so a thread that was given none, or whose code has no return, only
ever moves forward in its code. Main statement: the run of such threads ends,
and it takes at most one round more than there are bytes and ends of code ahead
of all threads.

The bytes and ends ahead are counted. A round lowers the count by at least its
own progress, and a run goes on only after rounds that made some.
-/

import BytecodeMachine.Proofs.Frame.Advance
import BytecodeMachine.Proofs.Scheduler.Deadlock
import BytecodeMachine.Proofs.Scheduler.Origins

namespace BytecodeMachine

/-- The thread is given no address to return to, or has no return in its code. -/
def Start.CannotReturn (start : Start) : Prop :=
  (∀ offset, .returnAddress offset ∉ start.arguments) ∨
    Opcode.ret.byte ∉ start.method.code

namespace Frame

/-- The bytes of code from the cursor of a frame on. -/
def bytesLeft (frame : Frame) : Nat :=
  frame.cursor.code.size - frame.cursor.position

theorem not_returns {start : Start} {frame next : Frame} (safe : start.CannotReturn)
    (confined : frame.ConfinedTo start.method.code start.allowance) : ¬ frame.Returns next := by
  rintro ⟨present, index, offset, found, -⟩
  obtain noAddress | noReturn := safe
  · have held := confined.locals_only index _ (Locals.get_eq_ok_iff.mp found)
    exact noAddress offset (Start.mem_arguments_of_provides held nofun)
  · exact noReturn (confined.code_eq ▸ present)

section Stretches

variable {start : Start} (safe : start.CannotReturn)

include safe

/-- Without a return a step that lets the next instruction follow takes at least one byte. -/
theorem bytesLeft_of_proceed {frame next : Frame} {heap later : Heap}
    (confined : frame.ConfinedTo start.method.code start.allowance)
    (inOrder : next.WellFormed start.id)
    (proceeds : step.attempt (frame, heap) = (.ok .proceed, (next, later))) :
    1 + next.bytesLeft ≤ frame.bytesLeft := by
  obtain ⟨count, positive, -, moved⟩ | returns := advances_or_returns proceeds
  · have inside := inOrder.cursor_le
    rw [moved] at inside
    rw [bytesLeft, bytesLeft, moved]
    simp only [Cursor.skip] at inside ⊢
    omega
  · exact absurd returns (not_returns safe confined)

/-- Without a return a stretch executes no more instructions than it takes bytes. -/
theorem executed_add_bytesLeft_le {quantum : Nat} {frame next : Frame} {heap later : Heap}
    {stretch : Stretch}
    (holds : frame.WellFormed start.id ∧ frame.ConfinedTo start.method.code start.allowance)
    (success : (runFor quantum).attempt (frame, heap) = (.ok stretch, (next, later))) :
    stretch.executed + next.bytesLeft ≤ frame.bytesLeft := by
  induction quantum generalizing frame heap stretch with
  | zero =>
    cases (attempt_runFor_zero _).symm.trans success
    exact Nat.le_of_eq (Nat.zero_add _)
  | succ quantum inductionHypothesis =>
    have kept := (invariant_confinedTo start.id start.method.code start.allowance).keeps_step_frame
      (frame, heap) holds
    rw [attempt_runFor_succ] at success
    rcases outcome : step.attempt (frame, heap) with ⟨_ | _ | _ | _, ⟨reached, after⟩⟩ <;>
      simp only [outcome] at success kept
    case error => cases success
    case ok.proceed =>
      have first := bytesLeft_of_proceed safe holds.2 kept.1 outcome
      rcases rested : (runFor quantum).attempt (reached, after) with ⟨_ | rest, last⟩ <;>
        simp only [rested] at success <;> cases success
      have others := inductionHypothesis kept rested
      show rest.executed + 1 + next.bytesLeft ≤ frame.bytesLeft
      omega
    case ok.yield =>
      cases success
      cases (attempt_step_of_blocked holds.1 (blocked_of_yield outcome)).symm.trans outcome
      exact Nat.le_of_eq (Nat.zero_add _)
    case ok.endOfCode =>
      cases success
      cases (attempt_step_of_exhausted (isExhausted_of_endOfCode outcome) heap).symm.trans outcome
      exact Nat.le_of_eq (Nat.zero_add _)

end Stretches

end Frame

/-! ### Turns -/

namespace Thread

/-- The bytes of code from the cursor of the thread's frame on; none without a frame. -/
def bytesLeft (thread : Thread) : Nat :=
  (thread.current?.map Frame.bytesLeft).getD 0

/-- Without a return a turn executes no more instructions than it takes bytes. -/
theorem executed_add_bytesLeft_le {start : Start} (safe : start.CannotReturn)
    {thread reached : Thread} (stems : thread.StemsFrom start) {quantum : Nat} {heap after : Heap}
    {turn : Turn}
    (turned : (Thread.turn quantum).attempt (thread, heap) = (.ok turn, (reached, after))) :
    turn.executed + reached.bytesLeft ≤ thread.bytesLeft := by
  obtain rfl | ⟨frame, rfl, holds⟩ := stems.frames_eq
  · cases turned
    exact Nat.le_refl _
  · rw [attempt_turn_of_single] at turned
    rcases outcome : (Frame.runFor quantum).attempt (frame, heap) with
      ⟨fault | ⟨executed, stop⟩, ⟨next, later⟩⟩ <;> rw [outcome] at turned
    · cases turned
    · have moved := Frame.executed_add_bytesLeft_le safe holds outcome
      cases stop <;> cases turned
      · exact moved
      · exact moved
      · exact Nat.le_trans (Nat.le_add_right _ next.bytesLeft) moved

end Thread

/-! ### Rounds -/

namespace Scheduler

/-- The bytes that threads have ahead of them, and one end of code for each thread. -/
def workOf : List Thread → Nat
  | [] => 0
  | thread :: later => thread.bytesLeft + 1 + workOf later

/-- The bytes and ends of code that all threads in the table have ahead of them. -/
def work (scheduler : Scheduler) : Nat :=
  workOf scheduler.threads

/-- The thread stems from a start that keeps it from jumping back. -/
def OnlyMovesOn (thread : Thread) : Prop :=
  ∃ start, thread.StemsFrom start ∧ start.CannotReturn

/-- Turns that succeed lower the work by what they report. -/
theorem progress_add_workOf_le {quantum : Nat} {threads reached : List Thread}
    {heap after : Heap} {report : Round}
    (onward : ∀ thread ∈ threads, OnlyMovesOn thread)
    (success : attemptRoundOf quantum threads heap = (.ok report, (reached, after))) :
    report.executed + report.terminated.length + workOf (reached.filter (!·.isTerminated)) ≤
      workOf threads := by
  induction threads generalizing heap reached report with
  | nil =>
    cases success
    exact Nat.le_refl 0
  | cons thread later inductionHypothesis =>
    rw [List.forall_mem_cons] at onward
    obtain ⟨⟨start, stems, safe⟩, others⟩ := onward
    obtain ⟨turn, first, between, behind, rest, turned, rested, rfl, rfl⟩ :=
      attemptRoundOf_cons_eq_ok success
    have moved := Thread.executed_add_bytesLeft_le safe stems turned
    have movedBehind := inductionHypothesis others rested
    have ended := Thread.state_eq_terminated_iff turned
    cases gone : first.isTerminated with
    | true =>
      rw [List.filter_cons_of_neg (by simp [gone])]
      simp only [Round.after, ended.mpr gone, if_true, List.length_cons, workOf]
      omega
    | false =>
      have alive : turn.state ≠ .terminated := fun final => by simp [ended.mp final] at gone
      rw [List.filter_cons_of_pos (by simp [gone])]
      simp only [Round.after, alive, if_false, workOf]
      omega

theorem keeps_onlyMovesOn (quantum : Nat) :
    (Thread.turn quantum).Keeps fun state => OnlyMovesOn state.1 := by
  rintro ⟨thread, heap⟩ ⟨start, stems, safe⟩
  exact ⟨start, Thread.keeps_turn_stemsFrom_alone quantum (thread, heap) stems, safe⟩

/-- A round that succeeds lowers the work by its progress. -/
theorem progress_add_work_le {scheduler later : Scheduler} {report : Round}
    (onward : ∀ thread ∈ scheduler.threads, OnlyMovesOn thread)
    (success : round.attempt scheduler = (.ok report, later)) :
    report.executed + report.terminated.length + later.work ≤ scheduler.work := by
  obtain ⟨threads, heap, turns, rfl⟩ := round_eq_ok success
  exact progress_add_workOf_le onward turns

/-! ### Runs -/

/-- A run ends within a number of rounds: with any larger limit it has the same result, and that
is a fault, or no thread is left after as many rounds as it answers. -/
def EndsWithin (scheduler : Scheduler) (bound : Nat) : Prop :=
  ∃ result final,
    (∀ limit, bound + 1 ≤ limit → (run limit).attempt scheduler = (result, final)) ∧
      ((∃ rounds, result = .ok (some rounds) ∧ rounds ≤ bound ∧ final.threads = []) ∨
        ∃ fault, result = .error fault)

theorem endsWithin_of_empty {scheduler : Scheduler} (empty : scheduler.threads = [])
    (bound : Nat) : scheduler.EndsWithin bound :=
  ⟨.ok (some 0), scheduler, fun limit _ => attempt_run_of_empty empty limit,
    Or.inl ⟨0, rfl, Nat.zero_le bound, empty⟩⟩

theorem work_pos {scheduler : Scheduler} (inhabited : scheduler.threads ≠ []) :
    0 < scheduler.work := by
  obtain ⟨thread, later, threads⟩ := List.exists_cons_of_ne_nil inhabited
  rw [work, threads, workOf]
  exact Nat.add_pos_left (Nat.succ_pos _) _

/-- A run that begins with a round ends one round later than the run that follows it, or with the
round. -/
theorem endsWithin_succ {scheduler : Scheduler} {bound : Nat}
    (inhabited : scheduler.threads ≠ [])
    (rest : ∀ report later, round.attempt scheduler = (.ok report, later) →
      report.madeProgress → later.EndsWithin bound) : scheduler.EndsWithin (bound + 1) := by
  have begins (limit : Nat) (enough : bound + 1 + 1 ≤ limit) :
      ∃ remaining, limit = remaining + 1 ∧ bound + 1 ≤ remaining :=
    ⟨limit - 1, by omega, by omega⟩
  rcases rounded : round.attempt scheduler with ⟨fault | report, later⟩
  · refine ⟨.error fault, later, fun limit enough => ?_, Or.inr ⟨fault, rfl⟩⟩
    obtain ⟨remaining, rfl, -⟩ := begins limit enough
    rw [attempt_run_succ inhabited, rounded]
  · by_cases progress : report.madeProgress
    · obtain ⟨result, final, ends, outcome⟩ := rest report later rounded progress
      refine ⟨result.map (Option.map (· + 1)), final, fun limit enough => ?_, ?_⟩
      · obtain ⟨remaining, rfl, stillEnough⟩ := begins limit enough
        rw [attempt_run_succ inhabited, rounded]
        simp only [progress, if_true, ends remaining stillEnough]
      · obtain ⟨rounds, rfl, few, empty⟩ | ⟨fault, rfl⟩ := outcome
        · exact Or.inl ⟨rounds + 1, rfl, Nat.succ_le_succ few, empty⟩
        · exact Or.inr ⟨fault, rfl⟩
    · refine ⟨.error (.deadlock (later.threads.map Thread.id)), later, fun limit enough => ?_,
        Or.inr ⟨_, rfl⟩⟩
      obtain ⟨remaining, rfl, -⟩ := begins limit enough
      rw [attempt_run_succ inhabited, rounded]
      simp only [progress, Bool.false_eq_true, if_false]

/-- The induction is on the bound: a round with progress leaves less to be done, and any other
round is the last. -/
theorem endsWithin_of_work_le {scheduler : Scheduler} {bound : Nat}
    (onward : ∀ thread ∈ scheduler.threads, OnlyMovesOn thread)
    (enough : scheduler.work ≤ bound) : scheduler.EndsWithin bound := by
  induction bound generalizing scheduler with
  | zero =>
    by_cases inhabited : scheduler.threads = []
    · exact endsWithin_of_empty inhabited 0
    · exact absurd (work_pos inhabited) (Nat.not_lt_of_le enough)
  | succ bound inductionHypothesis =>
    by_cases inhabited : scheduler.threads = []
    · exact endsWithin_of_empty inhabited _
    · refine endsWithin_succ inhabited fun report later rounded progress => ?_
      have lower := progress_add_work_le onward rounded
      have some := mt (madeProgress_eq_false_iff report).mpr (by simp [progress])
      rw [← List.length_eq_zero_iff] at some
      refine inductionHypothesis (fun thread member => ?_) (by omega)
      have member : thread ∈ (round.attempt scheduler).2.threads := by rwa [rounded]
      exact keeps_roundOf (keeps_onlyMovesOn scheduler.quantum) scheduler.threads scheduler.heap
        onward thread (mem_threads_round member)

/-- When no thread in the table can jump back, whatever rounds were given before and whatever was
done to the heap, a run ends, with a fault or without. It takes at most one round more than there
are bytes and ends of code ahead of the threads; if it succeeds it takes not even that one, and
no thread is left. -/
theorem run_ends {scheduler : Scheduler} {starts : List Start}
    (history : StartedAs scheduler starts)
    (noReturn : ∀ thread ∈ scheduler.threads, ∀ start,
      startOf? starts thread.id = some start → start.CannotReturn) :
    scheduler.EndsWithin scheduler.work := by
  refine endsWithin_of_work_le (fun thread member => ?_) (Nat.le_refl scheduler.work)
  obtain ⟨start, found, stems⟩ := history.hasOrigin thread member
  exact ⟨start, stems, noReturn thread member start found⟩

/-- Two threads that have been given a reference each, and no address, end. -/
theorem crossing_ends :
    crossing.threads.map Thread.bytesLeft = [5, 5] ∧ crossing.EndsWithin 12 := by
  let empty := create { quantum := 2, heapCapacity := 4 }
  let both := ((onHeap (Heap.allocate "B")).attempt
    ((onHeap (Heap.allocate "A")).attempt empty).2).2
  let first := ((spawn lockBoth [.reference ⟨0⟩, .reference ⟨1⟩]).attempt both).2
  have one : StartedAs first [⟨⟨0⟩, lockBoth, [.reference ⟨0⟩, .reference ⟨1⟩]⟩] :=
    (((StartedAs.create _).onHeap _).onHeap _).spawned rfl
  have two : StartedAs crossing
      [⟨⟨1⟩, lockBoth, [.reference ⟨1⟩, .reference ⟨0⟩]⟩,
        ⟨⟨0⟩, lockBoth, [.reference ⟨0⟩, .reference ⟨1⟩]⟩] :=
    ((one.spawned rfl).round).round
  have ends := run_ends two fun thread _ start found => by
    have member := List.mem_of_find?_eq_some found
    simp only [List.mem_cons, List.not_mem_nil, or_false] at member
    obtain rfl | rfl := member <;> exact Or.inl fun offset => by simp
  have ahead : crossing.work = 12 := by decide +kernel
  exact ⟨by decide +kernel, ahead ▸ ends⟩

end Scheduler

end BytecodeMachine
