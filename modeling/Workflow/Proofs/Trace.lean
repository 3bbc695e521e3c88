import Workflow.Proofs.Turn

/-!
# What a run reports

The events of a run are its beginning, two events for each step that completes,
and an ending that agrees with the result.  A run that reports nothing does
otherwise the same.
-/

namespace Workflow

/-- The events of steps that complete, of which the first has the given index,
with the names that each of them binds. -/
def Event.ofSteps : Nat → List Step → List (List String) → List Event
  | index, step :: steps, names :: bound =>
      .stepStarted index step.node step.kind ::
        .stepCompleted index step.node step.kind names :: ofSteps (index + 1) steps bound
  | _, _, _ => []

/-- How the events of a run end after some of its steps, the first of which has the
given index: they end as all steps are done, or the run is cancelled before the
next step, or it stops at the next step.  A step that fails is reported; one that
is broken off since a name is bound is not. -/
inductive Run.Ending (pipeline : String) (finish : α → List Event) (index : Nat)
    (steps : List Step) : Nat → Except RunError α → List Event → Prop
  | completed (value : α) :
      Ending pipeline finish index steps steps.length (.ok value) (finish value)
  | cancelled {done : Nat} (reason : String) :
      done < steps.length →
      Ending pipeline finish index steps done (.error (.cancelled reason (index + done)))
        [.cancelled pipeline reason (index + done)]
  | failed {done : Nat} {step : Step} {error : RunError} :
      steps[done]? = some step → error.Blames (step.scope (index + done)) →
      Ending pipeline finish index steps done (.error error)
        [.stepStarted (index + done) step.node step.kind,
          .stepFailed (index + done) step.node step.kind error.code error.message,
          .failed pipeline error.code error.message]
  | clashed {done : Nat} {step : Step} (name : String) :
      steps[done]? = some step →
      Ending pipeline finish index steps done (.error (.variableConflict name))
        [.stepStarted (index + done) step.node step.kind,
          .failed pipeline (RunError.variableConflict name).code
            (RunError.variableConflict name).message]

namespace Run

variable {config : RunConfig} {host : Host σ} {pipeline : String} {index : Nat}
  {progress : Progress σ} {steps : List Step} {step : Step}

theorem Ending.cons {finish : α → List Event} {done : Nat} {result : Except RunError α}
    {events : List Event} (ending : Ending pipeline finish (index + 1) steps done result events) :
    Ending pipeline finish index (step :: steps) (done + 1) result events := by
  have place : index + 1 + done = index + (done + 1) := by omega
  cases ending with
  | completed value => exact .completed value
  | cancelled reason within =>
      rw [place]
      exact .cancelled reason (Nat.succ_lt_succ within)
  | failed found blames =>
      rw [place] at blames ⊢
      exact .failed (by simpa using found) blames
  | clashed name found =>
      rw [place]
      exact .clashed name (by simpa using found)

/-- An error ends the events alike, whatever success would add to them. -/
theorem Ending.of_error {finish : α → List Event} {other : β → List Event} {done : Nat}
    {error : RunError} {events : List Event}
    (ending : Ending pipeline finish index steps done (.error error) events) :
    Ending pipeline other index steps done (.error error) events := by
  cases ending with
  | cancelled reason within => exact .cancelled reason within
  | failed found blames => exact .failed found blames
  | clashed name found => exact .clashed name found

theorem Ending.of_ok {finish : α → List Event} {done : Nat} {value : α} {events : List Event}
    (ending : Ending pipeline finish index steps done (.ok value) events) :
    done = steps.length ∧ events = finish value := by
  cases ending with
  | completed => exact ⟨rfl, rfl⟩

/-- The events that steps add, with the names that each step binds which is done. -/
structure Traced (config : RunConfig) (host : Host σ) (pipeline : String) (index : Nat)
    (steps : List Step) (start : Progress σ) (bound : List (List String))
    (ending : List Event) : Prop where
  events : (runSteps config host pipeline index steps start).2.events =
    start.events ++ Event.ofSteps index steps bound ++ ending
  binds : ∀ i names, bound[i]? = some names → ∃ before after,
    runSteps config host pipeline index (steps.take i) start = (.ok (), before) ∧
      runSteps config host pipeline index (steps.take (i + 1)) start = (.ok (), after) ∧
        after.store.names = before.store.names ++ names
  ends : Ending pipeline (fun _ => []) index steps bound.length
    (runSteps config host pipeline index steps start).1 ending

theorem exists_traced (reports : config.emitEvents = true) (host : Host σ) (pipeline : String)
    (index : Nat) (steps : List Step) (start : Progress σ) :
    ∃ bound ending, Traced config host pipeline index steps start bound ending := by
  have reported : ∀ events, config.reported events = events := by
    intro events
    simp [RunConfig.reported, reports]
  induction steps generalizing index start with
  | nil =>
      refine ⟨[], [], ?_, by simp, .completed ()⟩
      simp [runSteps, Event.ofSteps]
  | cons step steps induction =>
      have opening := runSteps_opening config host pipeline index step steps start
      rcases ran : runSteps config host pipeline index (step :: steps) start with ⟨result, last⟩
      rw [ran] at opening
      cases opening with
      | @cancelled reason state polled =>
          refine ⟨[], [.cancelled pipeline reason index], ?_, by simp, ?_⟩
          · rw [ran]
            simp [reported, Event.ofSteps]
          · rw [ran]
            exact .cancelled reason (Nat.succ_pos steps.length)
      | @stopped state error after polled turn =>
          cases turn with
          | failed fails =>
              refine ⟨[], [.stepStarted index step.node step.kind,
                .stepFailed index step.node step.kind error.code error.message,
                .failed pipeline error.code error.message], ?_, by simp, ?_⟩
              · rw [ran]
                simp [noted, asked, reported, Event.ofSteps]
              · rw [ran]
                exact .failed rfl (outcome_blames fails)
          | @clashed front back name value made fresh taken =>
              refine ⟨[], [.stepStarted index step.node step.kind,
                .failed pipeline (RunError.variableConflict name).code
                  (RunError.variableConflict name).message], ?_, by simp, ?_⟩
              · rw [ran]
                simp [noted, clashed, asked, reported, Event.ofSteps]
              · rw [ran]
                exact .clashed name rfl
      | @passed state next _ _ polled passes rest =>
          obtain ⟨bindings, -, -, store, -, events⟩ := (turn_of_runStep passes).of_ok
          obtain ⟨bound, ending, traced⟩ := induction (index + 1) next
          have onward := runSteps_cons pipeline polled passes
          refine ⟨bindings.names :: bound, ending, ?_, ?_, ?_⟩
          · rw [onward, traced.events, events, reported]
            simp [Event.ofSteps]
          · intro i names found
            cases i with
            | zero =>
                obtain rfl : bindings.names = names := by simpa using found
                refine ⟨start, next, rfl, ?_, ?_⟩
                · rw [List.take_succ_cons, onward]
                  rfl
                · rw [store, Store.names_extended]
            | succ i =>
                rw [List.take_succ_cons, List.take_succ_cons, onward, onward]
                exact traced.binds i names found
          · rw [onward]
            exact traced.ends.cons

end Run

/-- The configuration with reports or without. -/
def RunConfig.reporting (config : RunConfig) (emitEvents : Bool) : RunConfig :=
  { config with emitEvents }

/-- The progress without its events. -/
def Progress.silent (progress : Progress σ) : Progress σ :=
  { progress with events := [] }

namespace Run

variable {config : RunConfig} {host : Host σ} {index : Nat} {step : Step}

theorem outcome_reporting (config : RunConfig) (emitEvents : Bool) (answer : Request → Reply)
    (index : Nat) (store : Store) (step : Step) :
    outcome (config.reporting emitEvents) answer index store step =
      outcome config answer index store step := rfl

theorem asked_silent (config : RunConfig) (host : Host σ) (index : Nat) (step : Step)
    (progress : Progress σ) :
    asked (config.reporting false) host index step progress.silent =
      (asked config host index step progress).silent := rfl

theorem emit_silent (config : RunConfig) (event : Event) (progress : Progress σ) :
    emit (config.reporting false) event progress.silent = (emit config event progress).silent := by
  simp [emit_eq, noted, Progress.silent, RunConfig.reported, RunConfig.reporting]

theorem perform_silent (config : RunConfig) (host : Host σ) (index : Nat) (step : Step)
    (progress : Progress σ) :
    perform (config.reporting false) host index step progress.silent =
      ((perform config host index step progress).1,
        (perform config host index step progress).2.silent) := by
  rw [perform_eq, perform_eq, asked_silent, outcome_reporting]
  rfl

theorem commit_silent (index : Nat) (step : Step) (bindings : Bindings)
    (progress : Progress σ) :
    commit index step bindings progress.silent =
      ((commit index step bindings progress).1,
        (commit index step bindings progress).2.silent) := by
  by_cases fresh : progress.store.Fresh bindings.names
  · rw [commit_of_fresh index step progress fresh]
    exact commit_of_fresh index step progress.silent fresh
  · obtain ⟨front, name, value, back, rfl, frontFresh, bound⟩ := Store.exists_clash fresh
    rw [commit_of_clash index step progress frontFresh bound]
    exact commit_of_clash index step progress.silent frontFresh bound value back

theorem runStep_silent (config : RunConfig) (host : Host σ) (index : Nat) (step : Step)
    (progress : Progress σ) :
    runStep (config.reporting false) host index step progress.silent =
      ((runStep config host index step progress).1,
        (runStep config host index step progress).2.silent) := by
  unfold runStep
  simp only [emit_silent, perform_silent]
  rcases perform config host index step
    (emit config (.stepStarted index step.node step.kind) progress) with ⟨error | bindings, next⟩
  · simp only [emit_silent]
  · simp only [commit_silent]
    rcases commit index step bindings next with ⟨error | _, last⟩
    · rfl
    · simp only [emit_silent]

theorem runSteps_silent (config : RunConfig) (host : Host σ) (pipeline : String) (index : Nat)
    (steps : List Step) (progress : Progress σ) :
    runSteps (config.reporting false) host pipeline index steps progress.silent =
      ((runSteps config host pipeline index steps progress).1,
        (runSteps config host pipeline index steps progress).2.silent) := by
  induction steps generalizing index progress with
  | nil => rfl
  | cons step steps induction =>
      have moved : ∀ state, ({ progress.silent with host := state } : Progress σ) =
          Progress.silent { progress with host := state } := fun _ => rfl
      unfold runSteps
      rw [show progress.silent.host = progress.host from rfl]
      rcases host.poll progress.host with ⟨_ | reason, state⟩
      · simp only [moved, runStep_silent]
        rcases runStep config host index step { progress with host := state } with
          ⟨error | _, next⟩
        · simp only [emit_silent]
        · exact induction (index + 1) next
      · simp only [moved, emit_silent]

end Run

namespace Pipeline

/-- The run of the first steps of a pipeline. -/
def runFirst (pipeline : Pipeline) (config : RunConfig) (host : Host σ)
    (initial : KeyMap Value) (state : σ) (count : Nat) : Except RunError Unit × Progress σ :=
  Run.runSteps config host pipeline.name 0 (pipeline.steps.take count)
    (pipeline.start config initial state)

theorem exists_runStep_of_runFirst {pipeline : Pipeline} {config : RunConfig} {host : Host σ}
    {initial : KeyMap Value} {state : σ} {done : Nat} {step : Step} {after : Progress σ}
    (found : pipeline.steps[done]? = some step)
    (ran : pipeline.runFirst config host initial state (done + 1) = (.ok (), after)) :
    ∃ before, pipeline.runFirst config host initial state done = (.ok (), before) ∧
      Run.runStep config host done step { before with host := (host.poll before.host).2 } =
        (.ok (), after) := by
  obtain ⟨within, -⟩ := List.getElem?_eq_some_iff.mp found
  rw [runFirst, List.take_add_one, found, Option.toList_some, Run.runSteps_append,
    List.length_take_of_le (Nat.le_of_lt within), Nat.zero_add] at ran
  rw [runFirst]
  rcases first : Run.runSteps config host pipeline.name 0 (pipeline.steps.take done)
    (pipeline.start config initial state) with ⟨error | _, before⟩
  · rw [first] at ran
    cases ran
  · rw [first] at ran
    replace ran : Run.runSteps config host pipeline.name done [step] before = (.ok (), after) :=
      ran
    have opening := Run.runSteps_opening config host pipeline.name done step [] before
    rw [ran] at opening
    cases opening with
    | @passed state next _ _ polled passes rest =>
        refine ⟨before, rfl, ?_⟩
        rw [polled, passes]
        exact congrArg _ (Prod.ext_iff.mp rest).2

theorem execute_of_runFirst_error {pipeline : Pipeline} {config : RunConfig} {host : Host σ}
    {initial : KeyMap Value} {state : σ} {count : Nat} {error : RunError} {last : Progress σ}
    (failed : pipeline.runFirst config host initial state count = (.error error, last)) :
    pipeline.execute config host initial state = (.error error, last) := by
  rw [execute_eq, ← List.take_append_drop count pipeline.steps, Run.runSteps_append]
  rw [runFirst] at failed
  rw [failed]

theorem exists_runFirst {pipeline : Pipeline} {config : RunConfig} {host : Host σ}
    {initial : KeyMap Value} {state : σ} {result : RunResult}
    (success : (pipeline.execute config host initial state).1 = .ok result) (count : Nat) :
    ∃ last, pipeline.runFirst config host initial state count = (.ok (), last) := by
  rcases ran : pipeline.runFirst config host initial state count with ⟨error | _, last⟩
  · rw [execute_of_runFirst_error ran] at success
    cases success
  · exact ⟨last, rfl⟩

/-- A run whose first steps are done goes on with the others. -/
theorem execute_of_runFirst_ok {pipeline : Pipeline} {config : RunConfig} {host : Host σ}
    {initial : KeyMap Value} {state : σ} {count : Nat} {middle : Progress σ}
    (within : count ≤ pipeline.steps.length)
    (done : pipeline.runFirst config host initial state count = (.ok (), middle)) :
    pipeline.execute config host initial state =
      match Run.runSteps config host pipeline.name count (pipeline.steps.drop count) middle with
      | (.error error, last) => (.error error, last)
      | (.ok (), last) => (.ok (pipeline.result last),
          Run.emit config (.completed pipeline.name last.artifacts.length) last) := by
  have onward : Run.runSteps config host pipeline.name 0 pipeline.steps
        (pipeline.start config initial state) =
      Run.runSteps config host pipeline.name count (pipeline.steps.drop count) middle := by
    have split := Run.runSteps_append config host pipeline.name 0 (pipeline.steps.take count)
      (pipeline.steps.drop count) (pipeline.start config initial state)
    rw [runFirst] at done
    rw [List.take_append_drop, done, List.length_take_of_le within, Nat.zero_add] at split
    exact split
  rcases rest : Run.runSteps config host pipeline.name count (pipeline.steps.drop count) middle with
    ⟨error | _, last⟩
  · simp only [execute_eq, onward, rest]
  · simp only [execute_eq, onward, rest]

/-- The events of a run, with the names that each step binds which is done. -/
structure Traced (pipeline : Pipeline) (config : RunConfig) (host : Host σ)
    (initial : KeyMap Value) (state : σ) (bound : List (List String))
    (ending : List Event) : Prop where
  events : (pipeline.execute config host initial state).2.events =
    .started pipeline.name pipeline.steps.length ::
      (Event.ofSteps 0 pipeline.steps bound ++ ending)
  binds : ∀ i names, bound[i]? = some names → ∃ before after,
    pipeline.runFirst config host initial state i = (.ok (), before) ∧
      pipeline.runFirst config host initial state (i + 1) = (.ok (), after) ∧
        after.store.names = before.store.names ++ names
  ends : Run.Ending pipeline.name
    (fun result => [.completed pipeline.name result.artifacts.length]) 0 pipeline.steps
    bound.length (pipeline.execute config host initial state).1 ending

theorem exists_traced (pipeline : Pipeline) (config : RunConfig)
    (reports : config.emitEvents = true) (host : Host σ) (initial : KeyMap Value) (state : σ) :
    ∃ bound ending, pipeline.Traced config host initial state bound ending := by
  obtain ⟨bound, ending, traced⟩ := Run.exists_traced reports host pipeline.name 0 pipeline.steps
    (pipeline.start config initial state)
  obtain ⟨events, binds, ends⟩ := traced
  have begun : (pipeline.start config initial state).events =
      [.started pipeline.name pipeline.steps.length] := by
    simp [start, Run.emit, reports]
  rw [begun] at events
  rcases ran : Run.runSteps config host pipeline.name 0 pipeline.steps
    (pipeline.start config initial state) with ⟨error | _, last⟩
  · rw [ran] at events ends
    refine ⟨bound, ending, ?_, binds, ?_⟩
    · simpa [execute_eq, ran] using events
    · simpa [execute_eq, ran] using ends.of_error
  · rw [ran] at events ends
    obtain ⟨all, rfl⟩ := ends.of_ok
    refine ⟨bound, [.completed pipeline.name last.artifacts.length], ?_, binds, ?_⟩
    · have recorded : last.events = .started pipeline.name pipeline.steps.length ::
          Event.ofSteps 0 pipeline.steps bound := by
        simpa using events
      simp [execute_eq, ran, Run.emit, reports, recorded]
    · rw [execute_eq, ran, all]
      exact .completed (pipeline.result last)

/-- A run that reports nothing does otherwise the same. -/
theorem execute_silent (pipeline : Pipeline) (config : RunConfig) (host : Host σ)
    (initial : KeyMap Value) (state : σ) :
    pipeline.execute (config.reporting false) host initial state =
      ((pipeline.execute config host initial state).1,
        (pipeline.execute config host initial state).2.silent) := by
  have begun : pipeline.start (config.reporting false) initial state =
      (pipeline.start config initial state).silent :=
    Run.emit_silent config (.started pipeline.name pipeline.steps.length)
      { store := .ofInitial initial, host := state }
  rw [execute_eq, execute_eq, begun, Run.runSteps_silent]
  rcases Run.runSteps config host pipeline.name 0 pipeline.steps
    (pipeline.start config initial state) with ⟨error | _, last⟩
  · rfl
  · simp only [Run.emit_silent]
    rfl

/-- A run that reports tells what its steps bind and how it ends; one that does not
report has the same result and leaves the same behind, but for the events. -/
theorem execute_trace (pipeline : Pipeline) (config : RunConfig) (host : Host σ)
    (initial : KeyMap Value) (state : σ) :
    (∃ bound ending, pipeline.Traced (config.reporting true) host initial state bound ending) ∧
      pipeline.execute (config.reporting false) host initial state =
        ((pipeline.execute (config.reporting true) host initial state).1,
          (pipeline.execute (config.reporting true) host initial state).2.silent) := by
  constructor
  · exact pipeline.exists_traced (config.reporting true) rfl host initial state
  · exact pipeline.execute_silent (config.reporting true) host initial state

end Pipeline

end Workflow
