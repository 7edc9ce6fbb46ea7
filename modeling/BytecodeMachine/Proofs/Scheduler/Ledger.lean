/-
This file keeps books on a scheduler from its beginning on. Threads get their
numbers in order, and a thread that was started is in the table or was reported
as ended, once and never both. Main statement: so it is after any requests, as
long as the numbers have not come round, whatever was refused and whatever rounds
were broken off by a fault; and a round that succeeds reports every thread of the
table at most once and no others.

That nothing gets lost is one equation between lists, up to order: the threads
reported as ended and those in the table are the threads that were started.
-/

import BytecodeMachine.Proofs.Scheduler.Origins
import BytecodeMachine.Proofs.Scheduler.Past

namespace BytecodeMachine

/-! ### Increasing numbers -/

/-- The numbers of the threads become larger from each to the next. -/
def ThreadId.Increasing (ids : List ThreadId) : Prop :=
  ids.Pairwise fun earlier later => earlier.number < later.number

theorem ThreadId.Increasing.nodup {ids : List ThreadId} (increasing : Increasing ids) :
    ids.Nodup := by
  refine List.Pairwise.imp ?_ increasing
  rintro earlier _ smaller rfl
  exact UInt32.lt_irrefl _ smaller

/-- Threads that are numbered in order have increasing numbers. -/
theorem ThreadId.increasing_of_numbers {ids : List ThreadId} {count : Nat}
    (numbers : ids.map (·.number.toNat) = List.range count) : Increasing ids := by
  have ordered := @List.pairwise_lt_range count
  rw [← numbers, List.pairwise_map] at ordered
  exact ordered.imp UInt32.lt_iff_toNat_lt.mpr

namespace Scheduler

/-! ### Books -/

/-- The books agree with the scheduler: the threads started are numbered in order, those in the
table stand in that order, and each was either reported as ended or is in the table. -/
structure Booked (scheduler : Scheduler) (started ended : List ThreadId) : Prop where
  numbers_eq : started.map (·.number.toNat) = List.range started.length
  nextId_eq : scheduler.nextId.toNat = started.length
  increasing : ThreadId.Increasing scheduler.ids
  perm : (ended ++ scheduler.ids).Perm started

namespace Booked

variable {scheduler : Scheduler} {started ended : List ThreadId}

theorem number_lt (booked : scheduler.Booked started ended) {id : ThreadId}
    (member : id ∈ scheduler.ids) : id.number < scheduler.nextId := by
  have known := booked.perm.subset (List.mem_append_right ended member)
  have numbered : id.number.toNat ∈ started.map (·.number.toNat) := List.mem_map_of_mem known
  rw [booked.numbers_eq, ← booked.nextId_eq, List.mem_range] at numbered
  exact UInt32.lt_iff_toNat_lt.mpr numbered

theorem nodup (booked : scheduler.Booked started ended) : (ended ++ scheduler.ids).Nodup :=
  booked.perm.nodup_iff.mpr (ThreadId.increasing_of_numbers booked.numbers_eq).nodup

/-- A thread that is started comes with the next number and behind all others. -/
theorem spawn (booked : scheduler.Booked started ended) (few : started.length + 1 < UInt32.size)
    {method : Method} {arguments : List Value} {id : ThreadId} {after : Scheduler}
    (accepted : (spawn method arguments).attempt scheduler = (.ok id, after)) :
    after.Booked (started ++ [id]) ended := by
  obtain ⟨rfl, rfl⟩ := spawn_eq_ok accepted
  have named := (Start.stemsFrom_thread ⟨⟨scheduler.nextId⟩, method, arguments⟩).id_eq
  have names : (enrol (Start.thread ⟨⟨scheduler.nextId⟩, method, arguments⟩)
      scheduler.threads).map Thread.id = scheduler.ids ++ [⟨scheduler.nextId⟩] := by
    rw [ids_enrol, named]
    exact if_neg fun known => UInt32.lt_irrefl _ (booked.number_lt known)
  have advanced : (scheduler.nextId + 1).toNat = started.length + 1 := by
    rw [UInt32.toNat_add, UInt32.toNat_one, booked.nextId_eq, Nat.mod_eq_of_lt few]
  refine ⟨?_, ?_, ?_, ?_⟩
  · rw [List.map_append, booked.numbers_eq, List.length_append, List.length_singleton,
      List.range_succ, ← booked.nextId_eq]
    rfl
  · rw [List.length_append, List.length_singleton]
    exact advanced
  · rw [ids, names, ThreadId.Increasing, List.pairwise_append]
    refine ⟨booked.increasing, List.pairwise_singleton _ _, fun id member last new => ?_⟩
    rw [List.mem_singleton.mp new]
    exact booked.number_lt member
  · rw [ids, names, ← List.append_assoc]
    exact booked.perm.append_right _

theorem round (booked : scheduler.Booked started ended) :
    (round.attempt scheduler).2.Booked started
      (ended ++ endedIn (round.attempt scheduler).1) := by
  have sameNumber : ((Scheduler.round).attempt scheduler).2.nextId = scheduler.nextId := by
    rw [attempt_round]
    split <;> rfl
  rcases outcome : Scheduler.round.attempt scheduler with ⟨fault | report, after⟩ <;>
    rw [outcome] at sameNumber
  · rw [endedIn, List.append_nil]
    have same := ids_of_round_error outcome
    exact ⟨booked.numbers_eq, sameNumber ▸ booked.nextId_eq, same ▸ booked.increasing,
      same ▸ booked.perm⟩
  · refine ⟨booked.numbers_eq, sameNumber ▸ booked.nextId_eq,
      booked.increasing.sublist (ids_sublist_of_round outcome), ?_⟩
    rw [endedIn, List.append_assoc]
    exact ((perm_ids_of_round outcome).append_left ended).trans booked.perm

end Booked

/-- As long as the numbers have not come round, the books agree with the scheduler. -/
theorem Past.booked {change : Heap → Heap → Prop} {scheduler : Scheduler}
    {started ended : List ThreadId} (past : Past change scheduler started ended)
    (few : started.length < UInt32.size) : scheduler.Booked started ended := by
  induction past with
  | create config => exact ⟨rfl, rfl, List.Pairwise.nil, List.Perm.refl []⟩
  | @spawn scheduler started ended before method arguments inductionHypothesis =>
    -- there were no more threads before, so the numbers had not come round then either
    rcases outcome : (Scheduler.spawn method arguments).attempt scheduler with
      ⟨fault | id, after⟩ <;> rw [outcome] at few
    · rw [startedIn, Except.toOption, Option.toList_none, List.append_nil] at few ⊢
      exact spawn_eq_error outcome ▸ inductionHypothesis few
    · have one : startedIn (.ok id) = [id] := rfl
      rw [one, List.length_append, List.length_singleton] at few
      exact (inductionHypothesis (Nat.lt_of_succ_lt few)).spawn few outcome
  | round before inductionHypothesis => exact (inductionHypothesis few).round
  | outside before changed inductionHypothesis =>
    have booked := inductionHypothesis few
    exact ⟨booked.numbers_eq, booked.nextId_eq, booked.increasing, booked.perm⟩

/-! ### Histories -/

/-- A request to a scheduler: to start a thread, to run a round, or to do anything to the heap. -/
inductive Request
  | spawn (method : Method) (arguments : List Value)
  | round
  | onHeap (action : Action Heap Unit)

/-- A scheduler, the threads that it has started and those that it has reported as ended. -/
structure History where
  scheduler : Scheduler
  started : List ThreadId
  ended : List ThreadId

/-- The history goes on with a request, whether it succeeds or fails. -/
def History.serve (history : History) : Request → History
  | .spawn method arguments =>
    let answer := (Scheduler.spawn method arguments).attempt history.scheduler
    ⟨answer.2, history.started ++ startedIn answer.1, history.ended⟩
  | .round =>
    let answer := Scheduler.round.attempt history.scheduler
    ⟨answer.2, history.started, history.ended ++ endedIn answer.1⟩
  | .onHeap action =>
    ⟨((Scheduler.onHeap action).attempt history.scheduler).2, history.started, history.ended⟩

/-- The history of a new scheduler after some requests. -/
def historyOf (config : SchedulerConfig) (requests : List Request) : History :=
  requests.foldl History.serve ⟨create config, [], []⟩

namespace History

/-- What every request keeps holds of the whole history. -/
theorem historyOf_of_kept {property : History → Prop} {config : SchedulerConfig}
    (beginning : property ⟨create config, [], []⟩)
    (kept : ∀ history request, property history → property (history.serve request))
    (requests : List Request) : property (historyOf config requests) :=
  List.foldlRecOn requests serve beginning fun history before request _ =>
    kept history request before

/-- The threads started and those reported as ended are the past of the scheduler. -/
def HasPast (history : History) : Prop :=
  Past (fun _ _ => True) history.scheduler history.started history.ended

theorem hasPast (config : SchedulerConfig) (requests : List Request) :
    (historyOf config requests).HasPast := by
  refine historyOf_of_kept (Past.create config) (fun history request before => ?_) requests
  cases request with
  | spawn method arguments => exact before.spawn method arguments
  | round => exact before.round
  | onHeap action => exact before.outside trivial

theorem quantum_eq (config : SchedulerConfig) (requests : List Request) :
    (historyOf config requests).scheduler.quantum = max config.quantum 1 := by
  refine @historyOf_of_kept (fun history => history.scheduler.quantum = max config.quantum 1)
    config rfl (fun history request before => ?_) requests
  cases request with
  | spawn method arguments =>
    rw [serve, attempt_spawn]
    split <;> exact before
  | round =>
    rw [serve, attempt_round]
    split <;> exact before
  | onHeap action => exact before

/-- An attempt to start a thread that is refused changes nothing. -/
theorem serve_of_refused {history : History} {method : Method} {arguments : List Value}
    {fault : Fault}
    (refused : ((spawn method arguments).attempt history.scheduler).1 = .error fault) :
    history.serve (.spawn method arguments) = history := by
  have unchanged : ((spawn method arguments).attempt history.scheduler).2 = history.scheduler :=
    spawn_eq_error (Prod.ext refused rfl)
  have nobody : history.started ++ startedIn (.error fault) = history.started :=
    List.append_nil history.started
  rw [serve, refused, unchanged, nobody]

/-! ### Nobody is reported twice -/

/-- The threads started are numbered in order. Those that are left stand in the table in that
order, each under its own name and with at most one frame, which bears that name as well; the
others, and no one else, were reported as ended, each of them once. -/
structure Accounted (history : History) : Prop where
  numbers_eq : history.started.map (·.number.toNat) = List.range history.started.length
  increasing : ThreadId.Increasing history.scheduler.ids
  thread?_eq : ∀ thread ∈ history.scheduler.threads,
    history.scheduler.thread? thread.id = some thread
  depth_le : ∀ thread ∈ history.scheduler.threads, thread.depth ≤ 1
  frame_thread_eq : ∀ thread ∈ history.scheduler.threads, ∀ frame ∈ thread.frames,
    frame.thread = thread.id
  mem_started_iff : ∀ id, id ∈ history.started ↔ id ∈ history.scheduler.ids ∨ id ∈ history.ended
  not_mem_ended : ∀ id ∈ history.scheduler.ids, id ∉ history.ended
  ended_nodup : history.ended.Nodup

theorem accounted {history : History}
    (booked : history.scheduler.Booked history.started history.ended)
    (wellFormed : history.scheduler.WellFormed) : history.Accounted := by
  obtain ⟨endedOnce, -, apart⟩ := List.nodup_append.mp booked.nodup
  constructor
  case numbers_eq => exact booked.numbers_eq
  case increasing => exact booked.increasing
  case thread?_eq => exact fun thread member => thread?_of_mem booked.increasing.nodup member
  case depth_le => exact fun thread member => (wellFormed.thread_wellFormed thread member).depth_le
  case frame_thread_eq =>
    exact fun thread member frame present =>
      ((wellFormed.thread_wellFormed thread member).frame_wellFormed frame present).thread_eq
  case mem_started_iff =>
    intro id
    rw [← booked.perm.mem_iff, List.mem_append, or_comm]
  case not_mem_ended => exact fun id present gone => apart id gone id present rfl
  case ended_nodup => exact endedOnce

end History

/-- What a round reports fits the table before it and the one after it. -/
structure ReportFits (quantum : Nat) (before after : Scheduler) (report : Round) : Prop where
  terminated_increasing : ThreadId.Increasing report.terminated
  waiting_increasing : ThreadId.Increasing report.waiting
  not_mem_waiting : ∀ id ∈ report.terminated, id ∉ report.waiting
  terminated_mem : ∀ id ∈ report.terminated, id ∈ before.ids
  waiting_mem : ∀ id ∈ report.waiting, id ∈ before.ids
  waiting_stays : ∀ id ∈ report.waiting, id ∈ after.ids
  executed_le : report.executed ≤ quantum * before.liveThreads

theorem reportFits_of_round {scheduler after : Scheduler} {report : Round}
    (increasing : ThreadId.Increasing scheduler.ids)
    (success : round.attempt scheduler = (.ok report, after)) :
    ReportFits scheduler.quantum scheduler after report := by
  have remain := ids_sublist_of_round success
  have waiting := waiting_sublist_of_round success
  have terminated := terminated_sublist_of_round success
  have distinct := (perm_ids_of_round success).nodup_iff.mpr increasing.nodup
  obtain ⟨-, -, apart⟩ := List.nodup_append.mp distinct
  exact {
    terminated_increasing := increasing.sublist terminated
    waiting_increasing := increasing.sublist (waiting.trans remain)
    not_mem_waiting := fun id gone waits => apart id gone id (waiting.subset waits) rfl
    terminated_mem := fun id gone => terminated.subset gone
    waiting_mem := fun id waits => remain.subset (waiting.subset waits)
    waiting_stays := fun id waits => waiting.subset waits
    executed_le := executed_le_of_round success }

/-- No thread is lost and none is reported twice. After any requests to a new scheduler that have
started fewer threads than there are numbers, the threads are accounted for. Starting one that is
refused changes nothing, and what a round that succeeds reports fits the table. -/
theorem threads_accounted (config : SchedulerConfig) (requests : List Request)
    (few : (historyOf config requests).started.length < UInt32.size) :
    let history := historyOf config requests
    history.Accounted ∧
    (∀ method arguments fault,
      ((spawn method arguments).attempt history.scheduler).1 = .error fault →
        history.serve (.spawn method arguments) = history) ∧
    ∀ report after, round.attempt history.scheduler = (.ok report, after) →
      ReportFits (max config.quantum 1) history.scheduler after report := by
  intro history
  have past := History.hasPast config requests
  have booked : history.scheduler.Booked history.started history.ended := past.booked few
  refine ⟨History.accounted booked past.reachable.wellFormed,
    fun method arguments fault refused => History.serve_of_refused refused,
    fun report after success => ?_⟩
  rw [← History.quantum_eq config requests]
  exact reportFits_of_round booked.increasing success

/-- Three threads are started and a fourth is refused. The first ends in the first round, the
second in the next, which the third breaks off by a byte that is no instruction. -/
def brokenOff : List Request :=
  [.spawn ⟨#[0x00], 0, 0⟩ [], .spawn ⟨#[0x00], 0, 0⟩ [.int 1],
    .spawn ⟨#[0x00, 0x00, 0x00], 0, 0⟩ [], .round, .spawn ⟨#[0xff], 0, 0⟩ [], .round]

/-- The second thread is in the table still, so that the round to come reports it. -/
theorem threads_accounted_brokenOff :
    let history := historyOf { quantum := 2 } brokenOff
    history.started = [⟨0⟩, ⟨1⟩, ⟨2⟩] ∧ history.ended = [⟨0⟩] ∧
      history.scheduler.ids = [⟨1⟩, ⟨2⟩] ∧ history.Accounted ∧
      (history.serve .round).ended = [⟨0⟩, ⟨1⟩, ⟨2⟩] := by
  intro history
  have started : history.started = [⟨0⟩, ⟨1⟩, ⟨2⟩] := by decide +kernel
  have few : history.started.length < UInt32.size := by
    rw [started]
    decide
  exact ⟨started, by decide +kernel, by decide +kernel,
    (threads_accounted { quantum := 2 } brokenOff few).1, by decide +kernel⟩

end Scheduler

end BytecodeMachine
