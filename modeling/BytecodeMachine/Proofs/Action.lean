/-
This file looks at actions apart from the events that they report. What an
action answers and the state that it leaves are determined by what its parts
answer and leave, and a property of the state that every part keeps is kept by
the whole, whether it succeeds or fails.
-/

import BytecodeMachine.Action

namespace BytecodeMachine

theorem Except.exists_of_map_eq_ok {ε α β : Type} {result : Except ε α} {change : α → β}
    {answer : β} (success : result.map change = .ok answer) :
    ∃ value, result = .ok value ∧ change value = answer := by
  cases result with
  | error fault => cases success
  | ok value => exact ⟨value, rfl, Except.ok.inj success⟩

theorem Except.error_of_map_eq_error {ε α β : Type} {result : Except ε α} {change : α → β}
    {fault : ε} (failure : result.map change = .error fault) : result = .error fault := by
  cases result with
  | error other =>
    cases failure
    rfl
  | ok value => cases failure

namespace Action

variable {σ τ α β : Type}

/-- What an action answers in a state, and the state that it leaves. -/
def attempt (action : Action σ α) (state : σ) : Except Fault α × σ :=
  ((action.run state).result, (action.run state).state)

/-! ### Answers and states of composed actions -/

theorem attempt_of_run {action : Action σ α} {state reached : σ} {result : Except Fault α}
    {events : List Event} (outcome : action.run state = ⟨result, reached, events⟩) :
    action.attempt state = (result, reached) := by
  rw [attempt, outcome]

theorem attempt_bind (action : Action σ α) (next : α → Action σ β) (state : σ) :
    (action >>= next).attempt state =
      match action.attempt state with
      | (.ok value, reached) => (next value).attempt reached
      | (.error fault, reached) => (.error fault, reached) := by
  simp only [attempt, run_bind]
  rcases action.run state with ⟨_ | value, reached, events⟩ <;> rfl

theorem attempt_bind_of_ok {action : Action σ α} {state reached : σ} {value : α}
    (next : α → Action σ β) (success : action.attempt state = (.ok value, reached)) :
    (action >>= next).attempt state = (next value).attempt reached := by
  rw [attempt_bind, success]

theorem attempt_bind_of_error {action : Action σ α} {state reached : σ} {fault : Fault}
    (next : α → Action σ β) (failure : action.attempt state = (.error fault, reached)) :
    (action >>= next).attempt state = (.error fault, reached) := by
  rw [attempt_bind, failure]

/-- A sequence succeeds only when both of its parts do. -/
theorem attempt_bind_eq_ok {action : Action σ α} {next : α → Action σ β} {state last : σ}
    {answer : β} (success : (action >>= next).attempt state = (.ok answer, last)) :
    ∃ value reached, action.attempt state = (.ok value, reached) ∧
      (next value).attempt reached = (.ok answer, last) := by
  rw [attempt_bind] at success
  rcases outcome : action.attempt state with ⟨_ | value, reached⟩ <;> rw [outcome] at success
  · cases congrArg Prod.fst success
  · exact ⟨value, reached, rfl, success⟩

@[simp]
theorem attempt_pure (value : α) (state : σ) :
    (pure value : Action σ α).attempt state = (.ok value, state) := rfl

@[simp]
theorem attempt_map (change : α → β) (action : Action σ α) (state : σ) :
    (change <$> action).attempt state =
      ((action.attempt state).1.map change, (action.attempt state).2) := by
  rw [attempt, run_map, attempt]

@[simp]
theorem attempt_get (state : σ) : (get : Action σ σ).attempt state = (.ok state, state) := rfl

@[simp]
theorem attempt_set (state other : σ) :
    (set other : Action σ Unit).attempt state = (.ok (), other) := rfl

@[simp]
theorem attempt_modify (change : σ → σ) (state : σ) :
    (modify change : Action σ Unit).attempt state = (.ok (), change state) := rfl

@[simp]
theorem attempt_fail (fault : Fault) (state : σ) :
    (fail fault : Action σ α).attempt state = (.error fault, state) := rfl

@[simp]
theorem attempt_report (event : Event) (state : σ) :
    (report event).attempt state = (.ok (), state) := rfl

@[simp]
theorem attempt_inspect (view : σ → Except Fault α) (state : σ) :
    (inspect view).attempt state = (view state, state) := rfl

theorem attempt_zoom (part : σ → τ) (restore : τ → σ → σ) (action : Action τ α) (state : σ) :
    (zoom part restore action).attempt state =
      ((action.attempt (part state)).1, restore (action.attempt (part state)).2 state) := rfl

@[simp]
theorem attempt_onFirst (action : Action σ α) (state : σ × τ) :
    (onFirst action).attempt state =
      ((action.attempt state.1).1, ((action.attempt state.1).2, state.2)) := rfl

@[simp]
theorem attempt_onSecond (action : Action τ α) (state : σ × τ) :
    (onSecond action).attempt state =
      ((action.attempt state.2).1, (state.1, (action.attempt state.2).2)) := rfl

@[simp]
theorem attempt_build (fresh : τ) (action : Action τ Unit) (state : σ) :
    (build fresh action).attempt state =
      ((action.attempt fresh).1.map fun _ => (action.attempt fresh).2, state) := rfl

/-- If conditions of which one always applies tell when an action succeeds and how it fails, then
it succeeds exactly under its conditions and fails exactly under the others. -/
theorem attempt_eq_iff_of_cases {ι : Type} {action : Action σ α} {state left : σ} {answer : α}
    {succeeds : ι → Prop} {reached : ι → σ} {fails : Fault → Prop}
    (success : ∀ cause, succeeds cause → action.attempt state = (.ok answer, reached cause))
    (failure : ∀ fault, fails fault → action.attempt state = (.error fault, left))
    (total : (∃ cause, succeeds cause) ∨ ∃ fault, fails fault) :
    (∀ value later, action.attempt state = (.ok value, later) ↔
      value = answer ∧ ∃ cause, succeeds cause ∧ later = reached cause) ∧
    ∀ fault later, action.attempt state = (.error fault, later) ↔ fails fault ∧ later = left := by
  refine ⟨fun value later => ⟨fun outcome => ?_, ?_⟩, fun fault later => ⟨fun outcome => ?_, ?_⟩⟩
  · obtain ⟨cause, holds⟩ | ⟨fault, holds⟩ := total
    · cases (success cause holds).symm.trans outcome
      exact ⟨rfl, cause, holds, rfl⟩
    · cases (failure fault holds).symm.trans outcome
  · rintro ⟨rfl, cause, holds, rfl⟩
    exact success cause holds
  · obtain ⟨cause, holds⟩ | ⟨other, holds⟩ := total
    · cases (success cause holds).symm.trans outcome
    · cases (failure other holds).symm.trans outcome
      exact ⟨holds, rfl⟩
  · rintro ⟨holds, rfl⟩
    exact failure fault holds

/-! ### Properties that an action keeps -/

/-- An action keeps a property of the state when it leaves no state without it, also where it
fails. -/
def Keeps (action : Action σ α) (property : σ → Prop) : Prop :=
  ∀ state, property state → property (action.attempt state).2

variable {property : σ → Prop}

/-- In a state with a property, whatever the action answers has another one. -/
def Gives (action : Action σ α) (property : σ → Prop) (answered : α → Prop) : Prop :=
  ∀ ⦃state value⦄, property state → (action.attempt state).1 = .ok value → answered value

/-- What follows an action has only to be considered for the answers that the action gives. -/
theorem Keeps.bind_of_gives {action : Action σ α} {next : α → Action σ β} {answered : α → Prop}
    (first : action.Keeps property) (gives : action.Gives property answered)
    (later : ∀ value, answered value → (next value).Keeps property) :
    (action >>= next).Keeps property := by
  intro state holds
  have middle := first state holds
  rw [attempt_bind]
  rcases outcome : action.attempt state with ⟨_ | value, reached⟩ <;> rw [outcome] at middle
  · exact middle
  · exact later value (gives holds (congrArg Prod.fst outcome)) reached middle

theorem Keeps.bind {action : Action σ α} {next : α → Action σ β} (first : action.Keeps property)
    (later : ∀ value, (next value).Keeps property) : (action >>= next).Keeps property :=
  first.bind_of_gives (fun _ _ _ _ => trivial) fun value _ => later value

theorem Keeps.and {action : Action σ α} {other : σ → Prop} (left : action.Keeps property)
    (right : action.Keeps other) : action.Keeps fun state => property state ∧ other state :=
  fun state holds => ⟨left state holds.1, right state holds.2⟩

theorem Keeps.pure (value : α) : (Pure.pure value : Action σ α).Keeps property :=
  fun _ holds => holds

theorem Keeps.get : (MonadState.get : Action σ σ).Keeps property :=
  fun _ holds => holds

theorem Keeps.fail (fault : Fault) : (Action.fail fault : Action σ α).Keeps property :=
  fun _ holds => holds

theorem Keeps.report (event : Event) : (Action.report event : Action σ Unit).Keeps property :=
  fun _ holds => holds

theorem Keeps.inspect (view : σ → Except Fault α) : (Action.inspect view).Keeps property :=
  fun _ holds => holds

/-- What follows a look at the state has only to be considered for the state looked at. -/
theorem Keeps.get_bind {next : σ → Action σ α}
    (later : ∀ state, property state → property ((next state).attempt state).2) :
    (MonadState.get >>= next).Keeps property := by
  intro state holds
  rw [attempt_bind_of_ok _ (attempt_get state)]
  exact later state holds

theorem Keeps.onFirst {action : Action σ α} {other : τ → Prop} (kept : action.Keeps property) :
    (Action.onFirst action : Action (σ × τ) α).Keeps fun state =>
      property state.1 ∧ other state.2 :=
  fun state holds => ⟨kept state.1 holds.1, holds.2⟩

theorem Keeps.onSecond {action : Action τ α} {other : τ → Prop} (kept : action.Keeps other) :
    (Action.onSecond action : Action (σ × τ) α).Keeps fun state =>
      property state.1 ∧ other state.2 :=
  fun state holds => ⟨holds.1, kept state.2 holds.2⟩

/-! ### The answers of an action -/

theorem Gives.pure {answered : α → Prop} {value : α} (fine : answered value) :
    (Pure.pure value : Action σ α).Gives property answered := by
  rintro state _ _ ⟨⟩
  exact fine

theorem Gives.fail {answered : α → Prop} (fault : Fault) :
    (Action.fail fault : Action σ α).Gives property answered := nofun

/-- The answer of a sequence is that of its second part in the state that the first part keeps. -/
theorem Gives.bind {action : Action σ α} {next : α → Action σ β} {answered : α → Prop}
    {last : β → Prop} (first : action.Keeps property) (gives : action.Gives property answered)
    (later : ∀ value, answered value → (next value).Gives property last) :
    (action >>= next).Gives property last := by
  intro state value holds success
  obtain ⟨answer, reached, answers, rest⟩ :=
    attempt_bind_eq_ok (Prod.ext success (Eq.refl ((action >>= next).attempt state).2))
  have middle := first state holds
  rw [answers] at middle
  exact later answer (gives holds (congrArg Prod.fst answers)) middle (congrArg Prod.fst rest)

/-! ### Actions that fail without a trace -/

/-- Where the action fails, it leaves the state as it was. -/
def Atomic (action : Action σ α) : Prop :=
  ∀ ⦃state later fault⦄, action.attempt state = (.error fault, later) → later = state

theorem Atomic.pure (value : α) : (Pure.pure value : Action σ α).Atomic := by
  intro state later fault failed
  cases failed

theorem Atomic.fail (fault : Fault) : (Action.fail fault : Action σ α).Atomic := by
  intro state later fault failed
  cases failed
  rfl

theorem Atomic.zoom {part : σ → τ} {restore : τ → σ → σ} {action : Action τ α}
    (lawful : ∀ state, restore (part state) state = state) (atomic : action.Atomic) :
    (Action.zoom part restore action).Atomic := by
  intro state later fault failed
  rw [attempt_zoom, Prod.mk.injEq] at failed
  obtain ⟨answer, rfl⟩ := failed
  have unchanged : (action.attempt (part state)).2 = part state := atomic (Prod.ext answer rfl)
  rw [unchanged, lawful]

/-- When nothing that follows leaves a trace of its failure, a sequence that fails leaves what its
first part leaves. -/
theorem eq_of_bind_error {action : Action σ α} {next : α → Action σ β} {state later : σ}
    {fault : Fault} (atomic : ∀ value, (next value).Atomic)
    (failed : (action >>= next).attempt state = (.error fault, later)) :
    later = (action.attempt state).2 := by
  rw [attempt_bind] at failed
  rcases outcome : action.attempt state with ⟨_ | value, reached⟩ <;> rw [outcome] at failed
  · cases failed
    rfl
  · exact atomic value failed

/-- Looking at the state leaves no trace. -/
theorem Atomic.inspect_bind {view : σ → Except Fault α} {next : α → Action σ β}
    (atomic : ∀ value, (next value).Atomic) : (Action.inspect view >>= next).Atomic :=
  fun _ _ _ failed => eq_of_bind_error atomic failed

/-! ### The faults of an action -/

/-- Whatever the state, the action fails with no other than certain faults. -/
def RaisesOnly (action : Action σ α) (allowed : Fault → Bool) : Prop :=
  ∀ ⦃state fault⦄, (action.attempt state).1 = .error fault → allowed fault

section Raising

variable {allowed : Fault → Bool}

theorem RaisesOnly.bind {action : Action σ α} {next : α → Action σ β}
    (first : action.RaisesOnly allowed) (later : ∀ value, (next value).RaisesOnly allowed) :
    (action >>= next).RaisesOnly allowed := by
  intro state fault failed
  rw [attempt_bind] at failed
  rcases outcome : action.attempt state with ⟨_ | value, reached⟩ <;> rw [outcome] at failed
  · cases failed
    exact first (congrArg Prod.fst outcome)
  · exact later value failed

theorem RaisesOnly.pure (value : α) : (Pure.pure value : Action σ α).RaisesOnly allowed := nofun

theorem RaisesOnly.get : (MonadState.get : Action σ σ).RaisesOnly allowed := nofun

theorem RaisesOnly.set (state : σ) : (MonadState.set state : Action σ Unit).RaisesOnly allowed :=
  nofun

theorem RaisesOnly.report (event : Event) :
    (Action.report event : Action σ Unit).RaisesOnly allowed := nofun

theorem RaisesOnly.fail {fault : Fault} (fine : allowed fault) :
    (Action.fail fault : Action σ α).RaisesOnly allowed := by
  rintro state _ ⟨⟩
  exact fine

theorem RaisesOnly.inspect {view : σ → Except Fault α}
    (fine : ∀ state fault, view state = .error fault → allowed fault) :
    (Action.inspect view).RaisesOnly allowed :=
  fun state fault => fine state fault

theorem RaisesOnly.zoom {part : σ → τ} {restore : τ → σ → σ} {action : Action τ α}
    (raises : action.RaisesOnly allowed) : (Action.zoom part restore action).RaisesOnly allowed :=
  fun _ _ failed => raises failed

end Raising

end Action

end BytecodeMachine
