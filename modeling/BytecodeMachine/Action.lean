/-
This file holds the actions of which the machine is built. An action works on a
state: it answers with a value or with a fault, and in both cases it leaves a
state behind and reports events. A fault keeps the state that was reached, so
what a failing action leaves behind can be stated and proved.
-/

import BytecodeMachine.Event

namespace BytecodeMachine

variable {σ τ α β : Type}

/-- What came of an action: its answer or fault, the state reached, and the events reported on
the way. -/
structure Outcome (σ α : Type) where
  result : Except Fault α
  state : σ
  events : List Event

/-- An action on states of a type. -/
def Action (σ α : Type) : Type :=
  σ → Outcome σ α

namespace Action

/-- Performs an action on a state. -/
def run (action : Action σ α) (state : σ) : Outcome σ α :=
  action state

/-- Answers with a value and does nothing. -/
protected def pure (value : α) : Action σ α := fun state =>
  ⟨.ok value, state, []⟩

/-- Performs an action and then the one that depends on its answer; a fault ends both. -/
protected def bind (action : Action σ α) (next : α → Action σ β) : Action σ β := fun state =>
  match action state with
  | ⟨.ok value, reached, events⟩ =>
    let rest := next value reached
    ⟨rest.result, rest.state, events ++ rest.events⟩
  | ⟨.error fault, reached, events⟩ => ⟨.error fault, reached, events⟩

instance : Monad (Action σ) where
  pure := Action.pure
  bind := Action.bind

instance : MonadStateOf σ (Action σ) where
  get := fun state => ⟨.ok state, state, []⟩
  set := fun state _ => ⟨.ok (), state, []⟩
  modifyGet := fun change state => ⟨.ok (change state).1, (change state).2, []⟩

/-- Fails and changes nothing. -/
def fail (fault : Fault) : Action σ α := fun state =>
  ⟨.error fault, state, []⟩

/-- Reports an event and changes nothing. -/
def report (event : Event) : Action σ Unit := fun state =>
  ⟨.ok (), state, [event]⟩

/-- Answers with what can be learnt from the state, and changes nothing. -/
def inspect (view : σ → Except Fault α) : Action σ α := fun state =>
  ⟨view state, state, []⟩

/-- Performs an action on a part of the state. -/
def zoom (part : σ → τ) (restore : τ → σ → σ) (action : Action τ α) : Action σ α := fun state =>
  let outcome := action (part state)
  ⟨outcome.result, restore outcome.state state, outcome.events⟩

/-- Performs an action on the first of two states. -/
def onFirst (action : Action σ α) : Action (σ × τ) α :=
  zoom Prod.fst (fun first state => (first, state.2)) action

/-- Performs an action on the second of two states. -/
def onSecond (action : Action τ α) : Action (σ × τ) α :=
  zoom Prod.snd (fun second state => (state.1, second)) action

/-- Performs an action on a fresh state of its own and answers with the state it leaves. -/
def build (fresh : τ) (action : Action τ Unit) : Action σ τ := fun state =>
  let outcome := action fresh
  ⟨outcome.result.map fun _ => outcome.state, state, outcome.events⟩

/-- Repeats an action until it answers with a value, but at most `limit` times, after it has
already been repeated `done` times and reported the events in `recent`, the latest first. -/
def iterateFrom (action : Action σ (Option α)) :
    (limit done : Nat) → σ → (recent : List Event) → Outcome σ (Nat × Option α)
  | 0, done, state, recent => ⟨.ok (done, none), state, recent.reverse⟩
  | limit + 1, done, state, recent =>
    match action state with
    | ⟨.ok none, reached, events⟩ =>
      iterateFrom action limit (done + 1) reached (events.reverse ++ recent)
    | ⟨.ok (some value), reached, events⟩ =>
      ⟨.ok (done, some value), reached, recent.reverse ++ events⟩
    | ⟨.error fault, reached, events⟩ => ⟨.error fault, reached, recent.reverse ++ events⟩

/-- Repeats an action until it answers with a value, but at most `limit` times. The answer is
how often the action was performed without a value, and the value if there was one. -/
def iterate (limit : Nat) (action : Action σ (Option α)) : Action σ (Nat × Option α) :=
  fun state => iterateFrom action limit 0 state []

/-! ### What performing an action amounts to -/

@[simp]
theorem run_pure (value : α) (state : σ) :
    (pure value : Action σ α).run state = ⟨.ok value, state, []⟩ := rfl

theorem run_bind (action : Action σ α) (next : α → Action σ β) (state : σ) :
    (action >>= next).run state =
      match action.run state with
      | ⟨.ok value, reached, events⟩ =>
        let rest := (next value).run reached
        ⟨rest.result, rest.state, events ++ rest.events⟩
      | ⟨.error fault, reached, events⟩ => ⟨.error fault, reached, events⟩ := rfl

/-- After a success the next action goes on in the state reached. -/
theorem run_bind_of_ok {action : Action σ α} {state reached : σ} {value : α}
    {events : List Event} (next : α → Action σ β)
    (success : action.run state = ⟨.ok value, reached, events⟩) :
    (action >>= next).run state =
      ⟨((next value).run reached).result, ((next value).run reached).state,
        events ++ ((next value).run reached).events⟩ := by
  rw [run_bind, success]

/-- After a fault nothing more is done. -/
theorem run_bind_of_error {action : Action σ α} {state reached : σ} {fault : Fault}
    {events : List Event} (next : α → Action σ β)
    (failure : action.run state = ⟨.error fault, reached, events⟩) :
    (action >>= next).run state = ⟨.error fault, reached, events⟩ := by
  rw [run_bind, failure]

@[simp]
theorem run_map (change : α → β) (action : Action σ α) (state : σ) :
    (change <$> action).run state =
      ⟨(action.run state).result.map change, (action.run state).state,
        (action.run state).events⟩ := by
  change (Action.bind action (Action.pure ∘ change)) state = _
  rcases outcome : action state with ⟨_ | value, reached, events⟩ <;>
    simp [Action.bind, Action.pure, run, outcome, Except.map]

@[simp]
theorem run_get (state : σ) : (get : Action σ σ).run state = ⟨.ok state, state, []⟩ := rfl

@[simp]
theorem run_set (state other : σ) :
    (set other : Action σ Unit).run state = ⟨.ok (), other, []⟩ := rfl

@[simp]
theorem run_fail (fault : Fault) (state : σ) :
    (fail fault : Action σ α).run state = ⟨.error fault, state, []⟩ := rfl

@[simp]
theorem run_report (event : Event) (state : σ) :
    (report event).run state = ⟨.ok (), state, [event]⟩ := rfl

@[simp]
theorem run_inspect (view : σ → Except Fault α) (state : σ) :
    (inspect view).run state = ⟨view state, state, []⟩ := rfl

@[simp]
theorem run_zoom (part : σ → τ) (restore : τ → σ → σ) (action : Action τ α) (state : σ) :
    (zoom part restore action).run state =
      ⟨(action.run (part state)).result, restore (action.run (part state)).state state,
        (action.run (part state)).events⟩ := rfl

@[simp]
theorem run_onFirst (action : Action σ α) (state : σ × τ) :
    (onFirst action).run state =
      ⟨(action.run state.1).result, ((action.run state.1).state, state.2),
        (action.run state.1).events⟩ := rfl

@[simp]
theorem run_onSecond (action : Action τ α) (state : σ × τ) :
    (onSecond action).run state =
      ⟨(action.run state.2).result, (state.1, (action.run state.2).state),
        (action.run state.2).events⟩ := rfl

@[simp]
theorem run_build (fresh : τ) (action : Action τ Unit) (state : σ) :
    (build fresh action).run state =
      ⟨(action.run fresh).result.map fun _ => (action.run fresh).state, state,
        (action.run fresh).events⟩ := rfl

/-! ### Repetition -/

/-- What was done before only shifts the count and stands in front of the events. -/
theorem iterateFrom_eq (action : Action σ (Option α)) (limit done : Nat) (state : σ)
    (recent : List Event) :
    iterateFrom action limit done state recent =
      ⟨((iterate limit action).run state).result.map fun answer => (done + answer.1, answer.2),
        ((iterate limit action).run state).state,
        recent.reverse ++ ((iterate limit action).run state).events⟩ := by
  simp only [iterate, run]
  induction limit generalizing done state recent with
  | zero => simp [iterateFrom, Except.map]
  | succ limit inductionHypothesis =>
    rcases outcome : action state with ⟨_ | _ | value, reached, events⟩
    · simp [iterateFrom, outcome, Except.map]
    · simp only [iterateFrom, outcome]
      rw [inductionHypothesis, inductionHypothesis (0 + 1)]
      rcases (iterateFrom action limit 0 reached []).result with _ | answer <;>
        simp [Except.map, Nat.add_assoc]
    · simp [iterateFrom, outcome, Except.map]

theorem iterate_zero (action : Action σ (Option α)) :
    iterate 0 action = pure (0, none) := rfl

/-- An action is repeated by performing it once and, if it gave no value, repeating it. -/
theorem iterate_succ (limit : Nat) (action : Action σ (Option α)) :
    iterate (limit + 1) action = (do
      match ← action with
      | some value => return (0, some value)
      | none =>
        let rest ← iterate limit action
        return (rest.1 + 1, rest.2)) := by
  funext state
  change iterateFrom action (limit + 1) 0 state [] = run (action >>= _) state
  rcases outcome : action.run state with ⟨_ | _ | value, reached, events⟩
  · rw [run_bind_of_error _ outcome, iterateFrom, show action state = _ from outcome]
    rfl
  · rw [run_bind_of_ok _ outcome, iterateFrom, show action state = _ from outcome]
    simp only [iterateFrom_eq, run_bind, run_pure]
    rcases (iterate limit action).run reached with ⟨_ | answer, _, _⟩ <;>
      simp [Except.map, Nat.add_comm]
  · rw [run_bind_of_ok _ outcome, iterateFrom, show action state = _ from outcome]
    simp

/-! ### The laws of sequencing -/

instance : LawfulMonad (Action σ) := LawfulMonad.mk' (Action σ)
  (by
    intro _ action
    funext state
    change (Action.bind action Action.pure) state = action state
    rcases outcome : action state with ⟨_ | value, reached, events⟩ <;>
      simp [Action.bind, Action.pure, outcome])
  (by
    intro _ _ value next
    funext state
    change (Action.bind (Action.pure value) next) state = next value state
    simp [Action.bind, Action.pure])
  (by
    intro _ _ _ action next last
    funext state
    change (Action.bind (Action.bind action next) last) state =
      (Action.bind action fun value => Action.bind (next value) last) state
    rcases outcome : action state with ⟨_ | value, reached, events⟩
    · simp [Action.bind, outcome]
    · rcases second : next value reached with ⟨_ | answer, later, more⟩ <;>
        simp [Action.bind, outcome, second])

end Action

end BytecodeMachine
