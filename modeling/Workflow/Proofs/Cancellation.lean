import Workflow.Proofs.Requests
import Workflow.Run.Script

/-!
# Cancelled runs

A token may be cancelled before a run and during each of its steps, any number of
times.  Up to the first of these calls the run does what it would do undisturbed;
the next boundary of steps ends it with the reason of that call, if there is such
a boundary and the run comes to it.
-/

namespace Workflow

/-- The same progress with another state of the outside. -/
def Progress.withHost (progress : Progress σ) (host : τ) : Progress τ where
  store := progress.store
  artifacts := progress.artifacts
  events := progress.events
  requests := progress.requests
  host := host

namespace Run

variable {config : RunConfig} {host : Host σ} {other : Host τ} {index : Nat} {step : Step}
  {progress : Progress σ} {state : τ}

theorem emit_withHost (config : RunConfig) (event : Event) (progress : Progress σ) (state : τ) :
    emit config event (progress.withHost state) = (emit config event progress).withHost state := by
  simp only [emit_eq]
  rfl

@[simp]
theorem host_emit (config : RunConfig) (event : Event) (progress : Progress σ) :
    (emit config event progress).host = progress.host := by
  rw [emit_eq]
  rfl

theorem perform_withHost (index : Nat) (step : Step)
    (same : other.answer state = host.answer progress.host) :
    perform config other index step (progress.withHost state) =
      ((perform config host index step progress).1,
        (perform config host index step progress).2.withHost
          (other.after state (requested config index progress.store step))) := by
  rw [perform_eq, perform_eq]
  simp only [Progress.withHost, same]
  rfl

theorem commit_withHost (index : Nat) (step : Step) (bindings : Bindings)
    (progress : Progress σ) (state : τ) :
    commit index step bindings (progress.withHost state) =
      ((commit index step bindings progress).1,
        (commit index step bindings progress).2.withHost state) := by
  by_cases fresh : progress.store.Fresh bindings.names
  · rw [commit_of_fresh index step progress fresh]
    exact commit_of_fresh index step (progress.withHost state) fresh
  · obtain ⟨front, name, value, back, rfl, frontFresh, bound⟩ := Store.exists_clash fresh
    rw [commit_of_clash index step progress frontFresh bound]
    exact commit_of_clash index step (progress.withHost state) frontFresh bound value back

/-- A step does the same on every host that gives it the same answer. -/
theorem runStep_withHost (config : RunConfig) (index : Nat) (step : Step)
    (same : other.answer state = host.answer progress.host) :
    runStep config other index step (progress.withHost state) =
      ((runStep config host index step progress).1,
        (runStep config host index step progress).2.withHost
          (other.after state (requested config index progress.store step))) := by
  have begun : other.answer state =
      host.answer (emit config (.stepStarted index step.node step.kind) progress).host := by
    rw [host_emit]
    exact same
  unfold runStep
  simp only [emit_withHost]
  rw [perform_withHost index step begun, store_emit]
  rcases perform config host index step
    (emit config (.stepStarted index step.node step.kind) progress) with ⟨error | bindings, next⟩
  · simp only [emit_withHost]
  · simp only [commit_withHost]
    rcases commit index step bindings next with ⟨error | _, last⟩
    · rfl
    · simp only [emit_withHost]

theorem host_runStep (config : RunConfig) (host : Host σ) (index : Nat) (step : Step)
    (progress : Progress σ) :
    (runStep config host index step progress).2.host =
      host.after progress.host (requested config index progress.store step) := by
  have turn := runStep_turn config host index step progress
  generalize (runStep config host index step progress).1 = result at turn
  generalize (runStep config host index step progress).2 = next at turn ⊢
  cases turn <;> rfl

end Run

def Token.cancelAll (token : Token) (reasons : List String) : Token :=
  reasons.foldl Token.cancel token

/-- Only the first reason that a token is cancelled for matters. -/
theorem Token.reason_cancelAll (token : Token) (reasons : List String) :
    (token.cancelAll reasons).reason = token.reason.or reasons.head? := by
  induction reasons generalizing token with
  | nil => simp [cancelAll]
  | cons reason reasons induction =>
      rw [show token.cancelAll (reason :: reasons) = (token.cancel reason).cancelAll reasons
        from rfl, induction]
      cases known : token.reason <;> simp [cancel, known]

/-- The reasons that a token is cancelled for, before a run and during each of its
steps. -/
structure Calls where
  before : List String := []
  during : Nat → List String := fun _ => []

namespace Calls

/-- The calls that come last before the boundary with a number, which is the one
before the step with that index. -/
def upTo (calls : Calls) : Nat → List String
  | 0 => calls.before
  | index + 1 => calls.during index

/-- The first call of all comes before a boundary, but not before the boundary
that precedes it. -/
structure First (calls : Calls) (boundary : Nat) (reason : String) : Prop where
  unheard : ∀ earlier < boundary, calls.upTo earlier = []
  heard : (calls.upTo boundary).head? = some reason

theorem First.unique {calls : Calls} {boundary other : Nat} {reason otherReason : String}
    (first : calls.First boundary reason) (again : calls.First other otherReason) :
    boundary = other := by
  rcases Nat.lt_trichotomy boundary other with before | same | before
  · have heard := first.heard
    rw [again.unheard boundary before] at heard
    cases heard
  · exact same
  · have heard := again.heard
    rw [first.unheard other before] at heard
    cases heard

def inStep (index : Nat) (reasons : List String) : Calls where
  during step := if step = index then reasons else []

theorem first_inStep (index : Nat) (reason : String) (reasons : List String) :
    (inStep index (reason :: reasons)).First (index + 1) reason where
  unheard := by
    intro earlier below
    cases earlier with
    | zero => rfl
    | succ step => exact if_neg (by omega)
  heard := by
    have here : (inStep index (reason :: reasons)).upTo (index + 1) = reason :: reasons :=
      if_pos rfl
    rw [here, List.head?_cons]

theorem first_or_silent (calls : Calls) :
    (∃ boundary reason, calls.First boundary reason) ∨ ∀ boundary, calls.upTo boundary = [] := by
  by_cases spoken : ∃ boundary, calls.upTo boundary ≠ []
  · left
    have earliest := Nat.find_spec spoken
    obtain ⟨reason, reasons, calls⟩ := List.exists_cons_of_ne_nil earliest
    refine ⟨Nat.find spoken, reason, ?_, ?_⟩
    · intro earlier before
      exact of_not_not (Nat.find_min spoken before)
    · rw [calls, List.head?_cons]
  · right
    intro boundary
    exact of_not_not fun called => spoken ⟨boundary, called⟩

end Calls

/-- The state of a host whose run is cancelled by a token: that of its providers,
the token, the calls still to come in the present step, and how many boundaries
have been passed. -/
structure Interrupted (σ : Type) where
  runner : σ
  token : Token
  due : List String
  passed : Nat

namespace Interrupted

def begin (calls : Calls) (runner : σ) : Interrupted σ where
  runner := runner
  token := ({} : Token).cancelAll calls.before
  due := []
  passed := 0

/-- The token after all calls of the present step. -/
def settled (state : Interrupted σ) : Token :=
  state.token.cancelAll state.due

end Interrupted

namespace Host

def undisturbed (serve : σ → Request → Reply × σ) : Host σ where
  serve := serve
  poll state := (none, state)

/-- A host whose runs are cancelled by calls.  Those of a step are made while its
request is served, or else before the next boundary. -/
def interrupted (serve : σ → Request → Reply × σ) (calls : Calls) : Host (Interrupted σ) where
  serve state request :=
    let (reply, runner) := serve state.runner request
    (reply, { state with runner, token := state.settled, due := [] })
  poll state :=
    (state.settled.reason,
      { state with
        token := state.settled
        due := calls.during state.passed
        passed := state.passed + 1 })

variable {serve : σ → Request → Reply × σ} {calls : Calls}

theorem interrupted_answer (state : Interrupted σ) :
    (interrupted serve calls).answer state = (undisturbed serve).answer state.runner := rfl

/-- While a request is served, calls are made that would be made anyway. -/
theorem after_interrupted (serve : σ → Request → Reply × σ) (calls : Calls)
    (state : Interrupted σ) (requests : List Request) :
    ((interrupted serve calls).after state requests).runner =
        (undisturbed serve).after state.runner requests ∧
      ((interrupted serve calls).after state requests).passed = state.passed ∧
        ((interrupted serve calls).after state requests).settled = state.settled := by
  induction requests generalizing state with
  | nil => exact ⟨rfl, rfl, rfl⟩
  | cons request requests induction =>
      obtain ⟨runner, passed, settled⟩ :=
        induction ((interrupted serve calls).serve state request).2
      exact ⟨runner, passed, settled⟩

end Host

/-- The state in which an interrupted run comes to a boundary: its providers are in
a state that is known, and the first call since the boundary before, if there is
one, is about to be heard. -/
structure Interrupted.Ready (calls : Calls) (index : Nat) (runner : σ)
    (state : Interrupted σ) : Prop where
  runner : state.runner = runner
  passed : state.passed = index
  settled : state.settled.reason = (calls.upTo index).head?

namespace Run

variable {config : RunConfig} {serve : σ → Request → Reply × σ} {calls : Calls}
  {index : Nat} {progress : Progress σ} {state : Interrupted σ}

theorem begin_ready (calls : Calls) (runner : σ) :
    (Interrupted.begin calls runner).Ready calls 0 runner where
  runner := rfl
  passed := rfl
  settled := Token.reason_cancelAll {} calls.before

/-- At a boundary where no call is heard the run goes on, and after the requests of
its step it comes to the next boundary. -/
theorem exists_waiting (serve : σ → Request → Reply × σ) {runner : σ}
    (ready : state.Ready calls index runner)
    (unheard : calls.upTo index = []) :
    ∃ waiting, (Host.interrupted serve calls).poll state = (none, waiting) ∧
      waiting.runner = runner ∧
        ∀ requests, ((Host.interrupted serve calls).after waiting requests).Ready calls (index + 1)
          ((Host.undisturbed serve).after runner requests) := by
  have silent : state.settled.reason = none := by
    rw [ready.settled, unheard]
    rfl
  refine ⟨_, Prod.ext silent rfl, ready.runner, ?_⟩
  intro requests
  obtain ⟨served, passed, settled⟩ := Host.after_interrupted serve calls
    ((Host.interrupted serve calls).poll state).2 requests
  constructor
  · rw [served, ← ready.runner]
    rfl
  · rw [passed, ← ready.passed]
    rfl
  · rw [settled]
    have next : ((Host.interrupted serve calls).poll state).2.settled =
        state.settled.cancelAll (calls.during state.passed) := rfl
    rw [next, Token.reason_cancelAll, silent, ready.passed, Option.none_or]
    rfl

/-- A step that no call precedes does what it would do undisturbed, and brings the
run to the next boundary. -/
theorem runStep_interrupted (config : RunConfig) (serve : σ → Request → Reply × σ) (step : Step)
    (ready : state.Ready calls index progress.host) (unheard : calls.upTo index = []) :
    ∃ waiting further,
      (Host.interrupted serve calls).poll (progress.withHost state).host = (none, waiting) ∧
      runStep config (.interrupted serve calls) index step (progress.withHost waiting) =
        ((runStep config (.undisturbed serve) index step progress).1,
          (runStep config (.undisturbed serve) index step progress).2.withHost further) ∧
      further.Ready calls (index + 1)
        (runStep config (.undisturbed serve) index step progress).2.host := by
  obtain ⟨waiting, polled, runner, onward⟩ := exists_waiting serve ready unheard
  have same : (Host.interrupted serve calls).answer waiting =
      (Host.undisturbed serve).answer progress.host := by
    rw [Host.interrupted_answer, runner]
  refine ⟨waiting, _, polled, runStep_withHost config index step same, ?_⟩
  rw [host_runStep]
  exact onward (requested config index progress.store step)

/-- As long as no call is heard, an interrupted run does what an undisturbed one
does. -/
theorem runSteps_interrupted (config : RunConfig) (serve : σ → Request → Reply × σ)
    (pipeline : String) (steps : List Step)
    (ready : state.Ready calls index progress.host)
    (unheard : ∀ boundary, index ≤ boundary → boundary < index + steps.length →
      calls.upTo boundary = []) :
    ∃ last : Interrupted σ,
      runSteps config (.interrupted serve calls) pipeline index steps (progress.withHost state) =
        ((runSteps config (.undisturbed serve) pipeline index steps progress).1,
          (runSteps config (.undisturbed serve) pipeline index steps progress).2.withHost last) ∧
      last.runner = (runSteps config (.undisturbed serve) pipeline index steps progress).2.host ∧
      ((runSteps config (.undisturbed serve) pipeline index steps progress).1 = .ok () →
        last.Ready calls (index + steps.length) last.runner) := by
  induction steps generalizing index progress state with
  | nil => exact ⟨state, rfl, ready.runner, fun _ => ready.runner ▸ ready⟩
  | cons step steps induction =>
      have here : calls.upTo index = [] := by
        apply unheard index (Nat.le_refl index)
        simp
      obtain ⟨waiting, further, polled, stepSame, next⟩ :=
        runStep_interrupted config serve step ready here
      have polledBeside : (Host.undisturbed serve).poll progress.host = (none, progress.host) :=
        rfl
      rcases ran : runStep config (Host.undisturbed serve) index step progress with
        ⟨error | _, after⟩
      · rw [ran] at stepSame next
        rw [runSteps_stopped pipeline polled stepSame, runSteps_stopped pipeline polledBeside ran]
        refine ⟨further, ?_, ?_, nofun⟩
        · rw [emit_withHost]
        · rw [host_emit]
          exact next.runner
      · rw [ran] at stepSame next
        have later : ∀ boundary, index + 1 ≤ boundary → boundary < index + 1 + steps.length →
            calls.upTo boundary = [] := by
          intro boundary above below
          apply unheard boundary (by omega)
          rw [List.length_cons]
          omega
        obtain ⟨last, lastSame, lastRunner, lastReady⟩ := induction next later
        rw [runSteps_cons pipeline polled stepSame, runSteps_cons pipeline polledBeside ran]
        refine ⟨last, lastSame, lastRunner, ?_⟩
        intro succeeds
        have place : index + (step :: steps).length = index + 1 + steps.length := by
          rw [List.length_cons]
          omega
        rw [place]
        exact lastReady succeeds

end Run

/-- What an interrupted run leaves, with the state of its providers alone. -/
def Progress.beneath (progress : Progress (Interrupted σ)) : Progress σ :=
  progress.withHost progress.host.runner

theorem Progress.beneath_withHost {progress : Progress σ} {last : Interrupted σ}
    (same : last.runner = progress.host) : (progress.withHost last).beneath = progress := by
  unfold beneath
  rw [show (progress.withHost last).host.runner = progress.host from same]
  rfl

namespace Pipeline

variable {pipeline : Pipeline} {config : RunConfig} {serve : σ → Request → Reply × σ}
  {calls : Calls} {initial : KeyMap Value} {runner : σ}

theorem start_withHost (pipeline : Pipeline) (config : RunConfig) (initial : KeyMap Value)
    (runner : σ) (state : τ) :
    (pipeline.start config initial runner).withHost state = pipeline.start config initial state :=
  (Run.emit_withHost ..).symm

theorem host_start (pipeline : Pipeline) (config : RunConfig) (initial : KeyMap Value)
    (runner : σ) : (pipeline.start config initial runner).host = runner :=
  Run.host_emit ..

theorem runFirst_interrupted (config : RunConfig) (serve : σ → Request → Reply × σ)
    (initial : KeyMap Value) (runner : σ) {count : Nat} (within : count ≤ pipeline.steps.length)
    (unheard : ∀ boundary < count, calls.upTo boundary = []) :
    ∃ last : Interrupted σ,
      pipeline.runFirst config (.interrupted serve calls) initial (.begin calls runner) count =
        ((pipeline.runFirst config (.undisturbed serve) initial runner count).1,
          (pipeline.runFirst config (.undisturbed serve) initial runner count).2.withHost last) ∧
      last.runner =
        (pipeline.runFirst config (.undisturbed serve) initial runner count).2.host ∧
      ((pipeline.runFirst config (.undisturbed serve) initial runner count).1 = .ok () →
        last.Ready calls count last.runner) := by
  have ready : (Interrupted.begin calls runner).Ready calls 0
      (pipeline.start config initial runner).host := by
    rw [host_start]
    exact Run.begin_ready calls runner
  have length : 0 + (pipeline.steps.take count).length = count := by
    rw [List.length_take, Nat.min_eq_left within, Nat.zero_add]
  have before : ∀ boundary, 0 ≤ boundary →
      boundary < 0 + (pipeline.steps.take count).length → calls.upTo boundary = [] := by
    intro boundary _ below
    rw [length] at below
    exact unheard boundary below
  have ran := Run.runSteps_interrupted config serve pipeline.name _ ready before
  rw [start_withHost, length] at ran
  exact ran

/-- A run that is to pass a boundary where a call is heard ends there. -/
theorem execute_heard {boundary : Nat} {reason : String} {before : Progress σ}
    (first : calls.First boundary reason) (within : boundary < pipeline.steps.length)
    (completed : pipeline.runFirst config (.undisturbed serve) initial runner boundary =
      (.ok (), before)) :
    ∃ after,
      pipeline.execute config (.interrupted serve calls) initial (.begin calls runner) =
        (.error (.cancelled reason boundary), after) ∧
      after.beneath = Run.emit config (.cancelled pipeline.name reason boundary) before ∧
      ∀ request ∈ after.requests, request.stepIndex < boundary := by
  obtain ⟨last, ran, lastRunner, lastReady⟩ :=
    runFirst_interrupted config serve initial runner (Nat.le_of_lt within) first.unheard
  have asked : ∀ request ∈ before.requests, request.stepIndex < boundary := by
    intro request made
    have earlier := congrArg (fun ran => ran.2.requests) completed
    exact stepIndex_lt_of_runFirst (earlier ▸ made)
  rw [completed] at ran lastRunner lastReady
  obtain ⟨next, steps, rest⟩ : ∃ next steps, pipeline.steps.drop boundary = next :: steps :=
    List.exists_cons_of_ne_nil (by simpa using within)
  let state := ((Host.interrupted serve calls).poll last).2
  have polled : (Host.interrupted serve calls).poll (before.withHost last).host =
      (some reason, state) :=
    Prod.ext ((lastReady rfl).settled.trans first.heard) rfl
  have stops : Run.runSteps config (.interrupted serve calls) pipeline.name boundary
        (next :: steps) (before.withHost last) =
      (.error (.cancelled reason boundary),
        (Run.emit config (.cancelled pipeline.name reason boundary) before).withHost state) := by
    rw [Run.runSteps_cancelled pipeline.name polled steps, ← Run.emit_withHost]
    rfl
  refine ⟨(Run.emit config (.cancelled pipeline.name reason boundary) before).withHost state,
    ?_, ?_, ?_⟩
  · rw [execute_of_runFirst_ok (Nat.le_of_lt within) ran, rest, stops]
  · apply Progress.beneath_withHost
    rw [Run.host_emit]
    exact lastRunner
  · intro request made
    apply asked
    rw [← Run.requests_emit config (.cancelled pipeline.name reason boundary) before]
    exact made

theorem execute_quiet (config : RunConfig) (serve : σ → Request → Reply × σ)
    (initial : KeyMap Value) (runner : σ)
    (unheard : ∀ boundary < pipeline.steps.length, calls.upTo boundary = []) :
    ∃ after,
      pipeline.execute config (.interrupted serve calls) initial (.begin calls runner) =
        ((pipeline.execute config (.undisturbed serve) initial runner).1, after) ∧
      after.beneath = (pipeline.execute config (.undisturbed serve) initial runner).2 := by
  obtain ⟨last, ran, lastRunner, -⟩ :=
    runFirst_interrupted config serve initial runner (Nat.le_refl _) unheard
  rcases completed : pipeline.runFirst config (.undisturbed serve) initial runner
    pipeline.steps.length with ⟨error | _, final⟩
  · rw [completed] at ran lastRunner
    rw [execute_of_runFirst_error ran, execute_of_runFirst_error completed]
    exact ⟨_, rfl, Progress.beneath_withHost lastRunner⟩
  · rw [completed] at ran lastRunner
    rw [execute_of_runFirst_ok (Nat.le_refl _) ran,
      execute_of_runFirst_ok (Nat.le_refl _) completed, List.drop_length]
    refine ⟨(Run.emit config (.completed pipeline.name final.artifacts.length)
      final).withHost last, ?_, ?_⟩
    · exact Prod.ext rfl (Run.emit_withHost ..)
    · apply Progress.beneath_withHost
      rw [Run.host_emit]
      exact lastRunner

/-- A run that passes no boundary after the first call does what it would do
undisturbed. -/
theorem execute_unheard
    (unheard : ∀ boundary reason, calls.First boundary reason →
      pipeline.steps.length ≤ boundary ∨
        ∃ error, (pipeline.runFirst config (.undisturbed serve) initial runner boundary).1 =
          .error error) :
    ∃ after,
      pipeline.execute config (.interrupted serve calls) initial (.begin calls runner) =
        ((pipeline.execute config (.undisturbed serve) initial runner).1, after) ∧
      after.beneath = (pipeline.execute config (.undisturbed serve) initial runner).2 := by
  rcases calls.first_or_silent with ⟨boundary, reason, first⟩ | silent
  · rcases Nat.lt_or_ge boundary pipeline.steps.length with within | beyond
    · obtain ⟨last, ran, lastRunner, -⟩ :=
        runFirst_interrupted config serve initial runner (Nat.le_of_lt within) first.unheard
      rcases unheard boundary reason first with beyond | ⟨error, failed⟩
      · omega
      · rcases stopped : pipeline.runFirst config (.undisturbed serve) initial runner boundary
          with ⟨result, final⟩
        rw [stopped] at ran lastRunner failed
        obtain rfl : result = .error error := failed
        rw [execute_of_runFirst_error ran, execute_of_runFirst_error stopped]
        exact ⟨_, rfl, Progress.beneath_withHost lastRunner⟩
    · apply execute_quiet
      intro earlier below
      exact first.unheard earlier (Nat.lt_of_lt_of_le below beyond)
  · exact execute_quiet config serve initial runner fun boundary _ => silent boundary

/-- The first call ends a run at the boundary that follows it, for the reason of this
call; no step is begun any more.  Where the run passes no boundary after the first
call, since it fails in the step of this call or before, or since the call comes
in the last step or later, it does what it would do undisturbed. -/
theorem execute_interrupted (pipeline : Pipeline) (config : RunConfig)
    (serve : σ → Request → Reply × σ) (calls : Calls) (initial : KeyMap Value) (runner : σ) :
    (∀ boundary reason before, calls.First boundary reason → boundary < pipeline.steps.length →
        pipeline.runFirst config (.undisturbed serve) initial runner boundary =
            (.ok (), before) →
          ∃ after,
            pipeline.execute config (.interrupted serve calls) initial (.begin calls runner) =
              (.error (.cancelled reason boundary), after) ∧
            after.beneath = Run.emit config (.cancelled pipeline.name reason boundary) before ∧
            ∀ request ∈ after.requests, request.stepIndex < boundary) ∧
      ((∀ boundary reason, calls.First boundary reason →
          pipeline.steps.length ≤ boundary ∨
            ∃ error, (pipeline.runFirst config (.undisturbed serve) initial runner boundary).1 =
              .error error) →
        ∃ after,
          pipeline.execute config (.interrupted serve calls) initial (.begin calls runner) =
            ((pipeline.execute config (.undisturbed serve) initial runner).1, after) ∧
          after.beneath = (pipeline.execute config (.undisturbed serve) initial runner).2) := by
  constructor
  · intro boundary reason before first within completed
    exact execute_heard first within completed
  · exact execute_unheard

/-- A pipeline of two steps, which paint an image each. -/
def diptych : Pipeline where
  name := "diptych"
  steps := [
    .generate {
      generator := "paint"
      params := .single "prompt" (.string "a calm sea")
      out := "sea" },
    .generate {
      generator := "paint"
      params := .single "prompt" (.string "a clear sky")
      out := "sky" }]

/-- A call in the first step cancels the run before the second one.  It does not if the first
step fails, nor does a call in the second step. -/
theorem diptych_interrupted :
    let paint := fun (state : Unit) request => (({} : Script).reply request, state)
    let refuse := fun (state : Unit) request => (Script.failing "no paint" request, state)
    let early := Calls.inStep 0 ["enough", "far too much"]
    let late := Calls.inStep 1 ["enough"]
    (∃ after,
      diptych.execute {} (.interrupted paint early) ∅ (.begin early ()) =
        (.error (.cancelled "enough" 1), after) ∧
      ∀ request ∈ after.requests, request.stepIndex < 1) ∧
    (∃ after,
      diptych.execute {} (.interrupted paint late) ∅ (.begin late ()) =
        ((diptych.execute {} (.undisturbed paint) ∅ ()).1, after) ∧
      after.beneath = (diptych.execute {} (.undisturbed paint) ∅ ()).2) ∧
    ∃ after,
      diptych.execute {} (.interrupted refuse early) ∅ (.begin early ()) =
        ((diptych.execute {} (.undisturbed refuse) ∅ ()).1, after) ∧
      after.beneath = (diptych.execute {} (.undisturbed refuse) ∅ ()).2 := by
  intro paint refuse early late
  refine ⟨?_, ?_, ?_⟩
  · have completes : (diptych.runFirst {} (.undisturbed paint) ∅ () 1).1.toOption.isSome := by
      decide +kernel
    rcases completed : diptych.runFirst {} (.undisturbed paint) ∅ () 1 with ⟨error | _, before⟩
    · rw [completed] at completes
      cases completes
    · obtain ⟨after, cancelled, -, asked⟩ := (diptych.execute_interrupted {} paint early ∅ ()).1
        1 "enough" before (Calls.first_inStep 0 _ _) (by decide) completed
      exact ⟨after, cancelled, asked⟩
  · apply (diptych.execute_interrupted {} paint late ∅ ()).2
    intro boundary reason first
    obtain rfl := first.unique (Calls.first_inStep 1 _ _)
    exact .inl (by decide)
  · apply (diptych.execute_interrupted {} refuse early ∅ ()).2
    intro boundary reason first
    obtain rfl := first.unique (Calls.first_inStep 0 _ _)
    have fails : (diptych.runFirst {} (.undisturbed refuse) ∅ () 1).1.toOption = none := by
      decide +kernel
    right
    cases result : (diptych.runFirst {} (.undisturbed refuse) ∅ () 1).1 with
    | error error => exact ⟨error, rfl⟩
    | ok _ =>
        rw [result] at fails
        cases fails

end Pipeline

end Workflow
