import Workflow.Proofs.Agreement
import Workflow.Proofs.Binding

/-!
# The turn of a step

The outcome of a step is bindings, or an error that blames the step.  It depends
on the step's inputs and on the answer to its request, and it binds outputs of
the step only.  `Turn` tells all that can come of a step: it completes, it fails,
or it is broken off since a name of its outcome cannot be bound.
-/

namespace Workflow

variable {store other : Store} {step : Step} {bindings : Bindings}

namespace Flow

variable {scope : Scope}

theorem names_zip_sublist (names : List String) (values : List Value) :
    (Bindings.names (names.zip values)).Sublist names := by
  induction names generalizing values with
  | nil => exact List.Sublist.refl _
  | cons name names induction =>
      cases values with
      | nil => exact List.nil_sublist _
      | cons value values => exact (induction values).cons_cons name

theorem fanOut_names {step : FanOutStep} (made : fanOut scope store step = .ok bindings) :
    bindings.names.Sublist (step.node :: step.out) := by
  simp only [fanOut, Outcome.bind_eq_ok, Outcome.pure_eq_ok] at made
  obtain ⟨value, -, values, -, rfl⟩ := made
  exact (names_zip_sublist step.out values).cons_cons step.node

theorem collect_names {step : CollectStep} (made : collect scope store step = .ok bindings) :
    bindings.names = [step.out] := by
  simp only [collect] at made
  split at made
  · simp at made
  · obtain rfl := Except.ok.inj made
    rfl

theorem context_names {step : RouterStep} (made : context scope store step = .ok bindings) :
    bindings.names.Sublist step.contextOut.toList := by
  unfold context at made
  split at made
  · rename_i property name reads binds
    obtain ⟨content, -, rfl⟩ := Outcome.map_eq_ok.mp made
    simp [binds, Bindings.names]
  · obtain rfl := Except.ok.inj made
    exact List.nil_sublist _

theorem route_names {step : RouterStep} (made : route scope store step = .ok bindings) :
    bindings.names.Sublist (step.out :: step.contextOut.toList) := by
  simp only [route, Outcome.bind_eq_ok] at made
  obtain ⟨value, -, content, -, made⟩ := made
  split at made
  · simp at made
  · simp at made
  · obtain ⟨further, context, made⟩ := Outcome.bind_eq_ok.mp made
    obtain rfl := Outcome.pure_eq_ok.mp made
    exact (context_names context).cons_cons step.out

end Flow

namespace Run

variable {config : RunConfig} {index first second : Nat}

theorem action_names (made : action config index store step = .ok (.bind bindings)) :
    bindings.names.Sublist step.outputs := by
  cases step with
  | fanOut s =>
      obtain ⟨_, flow, same⟩ := Outcome.map_eq_ok.mp made
      obtain rfl := Action.bind.inj same
      exact Flow.fanOut_names flow
  | collect s =>
      obtain ⟨_, flow, same⟩ := Outcome.map_eq_ok.mp made
      obtain rfl := Action.bind.inj same
      rw [Flow.collect_names flow]
      exact List.Sublist.refl _
  | router s =>
      obtain ⟨_, flow, same⟩ := Outcome.map_eq_ok.mp made
      obtain rfl := Action.bind.inj same
      exact Flow.route_names flow
  | generate _ | transform _ | save _ | vision _ | text _ =>
      obtain ⟨_, -, impossible⟩ := Outcome.map_eq_ok.mp made
      cases impossible

theorem action_ask {request : Request}
    (made : action config index store step = .ok (.ask request)) :
    ¬step.kind.isFlowControl := by
  cases step with
  | fanOut _ | collect _ | router _ =>
      obtain ⟨_, -, impossible⟩ := Outcome.map_eq_ok.mp made
      cases impossible
  | generate _ | transform _ | save _ | vision _ | text _ => exact Bool.false_ne_true

theorem replyBindings_names {reply : Reply} (notFlow : ¬step.kind.isFlowControl)
    (made : replyBindings config index step reply = .ok bindings) :
    bindings.names = step.outputs :=
  (replyBindings_grounded reply notFlow).value bindings made

/-- What a step comes to on a store, where requests are answered by a function. -/
def outcome (config : RunConfig) (answer : Request → Reply) (index : Nat) (store : Store)
    (step : Step) : Except RunError Bindings :=
  match action config index store step with
  | .error error => .error error
  | .ok (.bind bindings) => .ok bindings
  | .ok (.ask request) => replyBindings config index step (answer request)

variable {answer counterpart : Request → Reply}

/-- The outcome of a step depends on its inputs alone, if the answers do not
depend on the index. -/
theorem outcome_alike (config : RunConfig) (agree : Store.Agree step.inputs store other)
    (answers : ∀ request : Request, answer { request with stepIndex := first } =
      counterpart { request with stepIndex := second }) :
    Alike (step.scope first) (step.scope second) Eq (outcome config answer first store step)
      (outcome config counterpart second other step) := by
  have acts : Alike (step.scope first) (step.scope second) (Action.Moved first second)
      (action config first store step) (action config second other step) :=
    action_alike config agree
  unfold outcome
  generalize action config first store step = here at acts ⊢
  generalize action config second other step = there at acts ⊢
  cases acts with
  | error cause blames counterpart => exact .error cause blames counterpart
  | ok moved =>
      cases moved with
      | bind bindings => exact .ok rfl
      | ask request =>
          simp only [answers]
          exact replyBindings_alike config step _

theorem outcome_blames {error : RunError}
    (failed : outcome config answer index store step = .error error) :
    error.Blames (step.scope index) :=
  (outcome_alike config (fun _ _ => rfl) fun _ => rfl).blames failed

theorem outcome_names (made : outcome config answer index store step = .ok bindings) :
    bindings.names.Sublist step.outputs := by
  unfold outcome at made
  split at made
  · simp at made
  · rename_i acts
    obtain rfl := Except.ok.inj made
    exact action_names acts
  · rename_i acts
    rw [replyBindings_names (action_ask acts) made]

/-- The request that a step makes on a store, if it makes one. -/
def requested (config : RunConfig) (index : Nat) (store : Store) (step : Step) : List Request :=
  match action config index store step with
  | .ok (.ask request) => [request]
  | _ => []

end Run

def Host.answer (host : Host σ) (state : σ) (request : Request) : Reply :=
  (host.serve state request).1

/-- The state of a host after requests. -/
def Host.after (host : Host σ) (state : σ) (requests : List Request) : σ :=
  requests.foldl (fun state request => (host.serve state request).2) state

namespace Run

variable {config : RunConfig} {host : Host σ} {index : Nat} {progress : Progress σ}

/-- The progress with the request of a step made and answered. -/
def asked (config : RunConfig) (host : Host σ) (index : Nat) (step : Step)
    (progress : Progress σ) : Progress σ :=
  { progress with
    requests := progress.requests ++ requested config index progress.store step
    host := host.after progress.host (requested config index progress.store step) }

theorem perform_eq (config : RunConfig) (host : Host σ) (index : Nat) (step : Step)
    (progress : Progress σ) :
    perform config host index step progress =
      (outcome config (host.answer progress.host) index progress.store step,
        asked config host index step progress) := by
  unfold perform outcome asked requested
  cases action config index progress.store step with
  | error error => simp [Host.after]
  | ok action =>
      cases action with
      | bind bindings => simp [Host.after]
      | ask request => rfl

end Run

/-- Names can be bound, one after the other. -/
structure Store.Fresh (store : Store) (names : List String) : Prop where
  distinct : names.Nodup
  unbound : ∀ name ∈ names, name ∉ store.names

theorem Store.fresh_nil : store.Fresh [] :=
  ⟨List.nodup_nil, fun _ member => absurd member List.not_mem_nil⟩

theorem Store.names_extended (store : Store) (bindings : Bindings) :
    Store.names ⟨store.entries ++ bindings⟩ = store.names ++ bindings.names :=
  List.map_append

theorem Store.fresh_cons {name : String} {value : Value} {names : List String} :
    store.Fresh (name :: names) ↔
      name ∉ store.names ∧ Store.Fresh ⟨store.entries ++ [(name, value)]⟩ names := by
  have extended : Store.names ⟨store.entries ++ [(name, value)]⟩ = store.names ++ [name] :=
    store.names_extended [(name, value)]
  constructor
  · intro fresh
    obtain ⟨different, distinct⟩ := List.nodup_cons.mp fresh.distinct
    refine ⟨fresh.unbound name List.mem_cons_self, distinct, ?_⟩
    intro later member bound
    rw [extended, List.mem_append, List.mem_singleton] at bound
    rcases bound with before | rfl
    · exact fresh.unbound later (List.mem_cons_of_mem _ member) before
    · exact different member
  · intro parts
    obtain ⟨unbound, distinct, later⟩ := parts
    rw [extended] at later
    constructor
    · refine List.nodup_cons.mpr ⟨?_, distinct⟩
      intro member
      exact later name member (by simp)
    · intro other member before
      rcases List.mem_cons.mp member with rfl | inRest
      · exact unbound before
      · exact later other inRest (List.mem_append_left _ before)

/-- Where not all bindings can be made, there is a first that cannot. -/
theorem Store.exists_clash {bindings : Bindings} (clashes : ¬store.Fresh bindings.names) :
    ∃ front name value back, bindings = front ++ (name, value) :: back ∧
      store.Fresh (Bindings.names front) ∧ name ∈ store.names ++ Bindings.names front := by
  induction bindings generalizing store with
  | nil => exact absurd Store.fresh_nil clashes
  | cons binding bindings induction =>
      obtain ⟨name, value⟩ := binding
      by_cases bound : name ∈ store.names
      · exact ⟨[], name, value, bindings, rfl, Store.fresh_nil, List.mem_append_left _ bound⟩
      · have later : ¬Store.Fresh ⟨store.entries ++ [(name, value)]⟩ (Bindings.names bindings) := by
          intro fresh
          exact clashes (Store.fresh_cons.mpr ⟨bound, fresh⟩)
        obtain ⟨front, other, held, back, rfl, fresh, again⟩ := induction later
        refine ⟨(name, value) :: front, other, held, back, rfl, ?_, ?_⟩
        · exact Store.fresh_cons.mpr ⟨bound, fresh⟩
        · rw [Store.names_extended, List.append_assoc] at again
          exact again

/-- The artifacts that a step records of its bindings. -/
def Step.recorded (step : Step) (index : Nat) (bindings : Bindings) : List Artifact :=
  if step.kind.isProviderBacked then
    bindings.flatMap fun binding => Artifact.ofValue index step.node binding.1 binding.2
  else []

@[simp] theorem Step.recorded_nil (step : Step) (index : Nat) : step.recorded index [] = [] := by
  simp [recorded]

theorem Step.recorded_append (step : Step) (index : Nat) (front back : Bindings) :
    step.recorded index (front ++ back) =
      step.recorded index front ++ step.recorded index back := by
  unfold recorded
  split <;> simp

namespace Run

variable {config : RunConfig} {host : Host σ} {index : Nat} {progress : Progress σ}

/-- The progress with the bindings of a step made. -/
def committed (index : Nat) (step : Step) (bindings : Bindings) (progress : Progress σ) :
    Progress σ :=
  { progress with
    store := ⟨progress.store.entries ++ bindings⟩
    artifacts := progress.artifacts ++ step.recorded index bindings }

theorem committed_nil : committed index step [] progress = progress := by
  simp [committed]

theorem committed_append (front back : Bindings) :
    committed index step back (committed index step front progress) =
      committed index step (front ++ back) progress := by
  simp [committed, Step.recorded_append]

theorem commit_append {front : Bindings} (index : Nat) (step : Step)
    (fresh : progress.store.Fresh front.names) (back : Bindings) :
    commit index step (front ++ back) progress =
      commit index step back (committed index step front progress) := by
  induction front generalizing progress with
  | nil => rw [committed_nil, List.nil_append]
  | cons binding front induction =>
      obtain ⟨name, value⟩ := binding
      obtain ⟨unbound, later⟩ := Store.fresh_cons.mp fresh
      have binds : progress.store.bind name value =
          .ok ⟨progress.store.entries ++ [(name, value)]⟩ :=
        Store.bind_eq_ok.mpr ⟨unbound, rfl⟩
      have rest : commit index step (front ++ back)
            (committed index step [(name, value)] progress) =
          commit index step back (committed index step ((name, value) :: front) progress) := by
        rw [induction later, committed_append]
        rfl
      simpa [commit, binds, committed, Step.recorded] using rest

theorem commit_of_fresh (index : Nat) (step : Step) (progress : Progress σ)
    (fresh : progress.store.Fresh bindings.names) :
    commit index step bindings progress = (.ok (), committed index step bindings progress) := by
  simpa [commit] using commit_append index step fresh []

/-- A name that is bound cannot be bound again; its value is recorded before. -/
theorem commit_of_bound {name : String} (index : Nat) (step : Step)
    (bound : name ∈ progress.store.names) (value : Value) (back : Bindings) :
    commit index step ((name, value) :: back) progress =
      (.error (.variableConflict name),
        { progress with
          artifacts := progress.artifacts ++ step.recorded index [(name, value)] }) := by
  have refused : progress.store.bind name value = .error (.variableConflict name) := by
    simp [Store.bind, Store.contains_iff_mem.mpr bound]
  simp [commit, refused, Step.recorded]

/-- What a step leaves behind that is broken off at one of its names. -/
def clashed (index : Nat) (step : Step) (front : Bindings) (name : String) (value : Value)
    (progress : Progress σ) : Progress σ :=
  { progress with
    store := ⟨progress.store.entries ++ front⟩
    artifacts := progress.artifacts ++ step.recorded index (front ++ [(name, value)]) }

theorem commit_of_clash {front : Bindings} {name : String} (index : Nat) (step : Step)
    (progress : Progress σ) (fresh : progress.store.Fresh front.names)
    (bound : name ∈ progress.store.names ++ front.names) (value : Value) (back : Bindings) :
    commit index step (front ++ (name, value) :: back) progress =
      (.error (.variableConflict name), clashed index step front name value progress) := by
  have again : name ∈ (committed index step front progress).store.names := by
    rw [committed, Store.names_extended]
    exact bound
  rw [commit_append index step fresh, commit_of_bound index step again]
  simp [committed, clashed, Step.recorded_append]

end Run

/-- What a run reports of events. -/
def RunConfig.reported (config : RunConfig) (events : List Event) : List Event :=
  if config.emitEvents then events else []

theorem RunConfig.reported_append (config : RunConfig) (first second : List Event) :
    config.reported (first ++ second) = config.reported first ++ config.reported second := by
  unfold reported
  split <;> rfl

namespace Run

variable {config : RunConfig} {host : Host σ} {index : Nat} {progress : Progress σ}

/-- The progress with further events reported. -/
def noted (config : RunConfig) (events : List Event) (progress : Progress σ) : Progress σ :=
  { progress with events := progress.events ++ config.reported events }

theorem emit_eq (config : RunConfig) (event : Event) (progress : Progress σ) :
    emit config event progress = noted config [event] progress := by
  unfold emit noted RunConfig.reported
  split <;> simp

/-- All that can come of a step from a progress. -/
inductive Turn (config : RunConfig) (host : Host σ) (index : Nat) (step : Step)
    (start : Progress σ) : Except RunError Unit → Progress σ → Prop
  | completed {bindings : Bindings} :
      outcome config (host.answer start.host) index start.store step = .ok bindings →
      start.store.Fresh bindings.names →
      Turn config host index step start (.ok ())
        (noted config
          [.stepStarted index step.node step.kind,
            .stepCompleted index step.node step.kind bindings.names]
          (committed index step bindings (asked config host index step start)))
  | failed {error : RunError} :
      outcome config (host.answer start.host) index start.store step = .error error →
      Turn config host index step start (.error error)
        (noted config
          [.stepStarted index step.node step.kind,
            .stepFailed index step.node step.kind error.code error.message]
          (asked config host index step start))
  | clashed {front back : Bindings} {name : String} {value : Value} :
      outcome config (host.answer start.host) index start.store step =
        .ok (front ++ (name, value) :: back) →
      start.store.Fresh front.names →
      name ∈ start.store.names ++ front.names →
      Turn config host index step start (.error (.variableConflict name))
        (noted config [.stepStarted index step.node step.kind]
          (Run.clashed index step front name value (asked config host index step start)))

theorem runStep_turn (config : RunConfig) (host : Host σ) (index : Nat) (step : Step)
    (progress : Progress σ) :
    Turn config host index step progress (runStep config host index step progress).1
      (runStep config host index step progress).2 := by
  have pair : ∀ first second, config.reported [first, second] =
      config.reported [first] ++ config.reported [second] :=
    fun first second => config.reported_append [first] [second]
  let begun := noted config [.stepStarted index step.node step.kind] progress
  have performs : perform config host index step begun =
      (outcome config (host.answer progress.host) index progress.store step,
        asked config host index step begun) :=
    perform_eq config host index step begun
  unfold runStep
  simp only [emit_eq]
  rw [show noted config [.stepStarted index step.node step.kind] progress = begun from rfl,
    performs]
  cases made : outcome config (host.answer progress.host) index progress.store step with
  | error error =>
      have turn := Turn.failed made
      simpa [noted, asked, begun, pair] using turn
  | ok bindings =>
      by_cases fresh : progress.store.Fresh bindings.names
      · have turn := Turn.completed made fresh
        have commits : commit index step bindings (asked config host index step begun) =
            (.ok (), committed index step bindings (asked config host index step begun)) :=
          commit_of_fresh index step _ fresh
        simp only [commits]
        simpa [noted, asked, committed, begun, pair, Bindings.names] using turn
      · obtain ⟨front, name, value, back, rfl, frontFresh, bound⟩ := Store.exists_clash fresh
        have turn := Turn.clashed made frontFresh bound
        have commits : commit index step (front ++ (name, value) :: back)
              (asked config host index step begun) =
            (.error (.variableConflict name),
              clashed index step front name value (asked config host index step begun)) :=
          commit_of_clash index step (asked config host index step begun) frontFresh bound value
            back
        simp only [commits]
        simpa [noted, asked, clashed, begun, pair] using turn

variable {start after : Progress σ} {step : Step}

theorem turn_of_runStep {result : Except RunError Unit}
    (ran : runStep config host index step start = (result, after)) :
    Turn config host index step start result after := by
  have turn := runStep_turn config host index step start
  rw [ran] at turn
  exact turn

/-- A step that succeeds leaves its bindings and its artifacts behind. -/
theorem Turn.of_ok (turn : Turn config host index step start (.ok ()) after) :
    ∃ bindings, outcome config (host.answer start.host) index start.store step = .ok bindings ∧
      start.store.Fresh bindings.names ∧ after.store = ⟨start.store.entries ++ bindings⟩ ∧
        after.artifacts = start.artifacts ++ step.recorded index bindings ∧
          after.events = start.events ++ config.reported
            [.stepStarted index step.node step.kind,
              .stepCompleted index step.node step.kind bindings.names] := by
  cases turn with
  | completed made fresh => exact ⟨_, made, fresh, rfl, rfl, rfl⟩

/-- All that can come of a first step and what follows it: the run is cancelled
before the step, it stops at the step, or it goes on from what the step leaves. -/
inductive Opening (config : RunConfig) (host : Host σ) (pipeline : String) (index : Nat)
    (step : Step) (steps : List Step) (start : Progress σ) :
    Except RunError Unit → Progress σ → Prop
  | cancelled {reason : String} {state : σ} :
      host.poll start.host = (some reason, state) →
      Opening config host pipeline index step steps start (.error (.cancelled reason index))
        (noted config [.cancelled pipeline reason index] { start with host := state })
  | stopped {state : σ} {error : RunError} {after : Progress σ} :
      host.poll start.host = (none, state) →
      Turn config host index step { start with host := state } (.error error) after →
      Opening config host pipeline index step steps start (.error error)
        (noted config [.failed pipeline error.code error.message] after)
  | passed {state : σ} {next last : Progress σ} {result : Except RunError Unit} :
      host.poll start.host = (none, state) →
      runStep config host index step { start with host := state } = (.ok (), next) →
      runSteps config host pipeline (index + 1) steps next = (result, last) →
      Opening config host pipeline index step steps start result last

theorem runSteps_opening (config : RunConfig) (host : Host σ) (pipeline : String) (index : Nat)
    (step : Step) (steps : List Step) (start : Progress σ) :
    Opening config host pipeline index step steps start
      (runSteps config host pipeline index (step :: steps) start).1
      (runSteps config host pipeline index (step :: steps) start).2 := by
  unfold runSteps
  rcases polled : host.poll start.host with ⟨_ | reason, state⟩
  · rcases ran : runStep config host index step { start with host := state } with
      ⟨error | _, next⟩
    · simpa [ran, emit_eq] using Opening.stopped polled (turn_of_runStep ran)
    · simpa [ran] using Opening.passed polled ran rfl
  · simpa [emit_eq] using Opening.cancelled polled

theorem runSteps_cons {state : σ} {next : Progress σ} (pipeline : String)
    (polled : host.poll start.host = (none, state))
    (ran : runStep config host index step { start with host := state } = (.ok (), next))
    (steps : List Step) :
    runSteps config host pipeline index (step :: steps) start =
      runSteps config host pipeline (index + 1) steps next := by
  simp [runSteps, polled, ran]

theorem runSteps_stopped {state : σ} {error : RunError} {after : Progress σ} (pipeline : String)
    (polled : host.poll start.host = (none, state))
    (ran : runStep config host index step { start with host := state } = (.error error, after))
    (steps : List Step) :
    runSteps config host pipeline index (step :: steps) start =
      (.error error, emit config (.failed pipeline error.code error.message) after) := by
  simp [runSteps, polled, ran]

theorem runSteps_cancelled {state : σ} {reason : String} (pipeline : String)
    (polled : host.poll start.host = (some reason, state)) (steps : List Step) :
    runSteps config host pipeline index (step :: steps) start =
      (.error (.cancelled reason index),
        emit config (.cancelled pipeline reason index) { start with host := state }) := by
  simp [runSteps, polled]

theorem runSteps_append (config : RunConfig) (host : Host σ) (pipeline : String) (index : Nat)
    (front back : List Step) (start : Progress σ) :
    runSteps config host pipeline index (front ++ back) start =
      match runSteps config host pipeline index front start with
      | (.error error, last) => (.error error, last)
      | (.ok (), middle) => runSteps config host pipeline (index + front.length) back middle := by
  induction front generalizing index start with
  | nil => simp [runSteps]
  | cons step front induction =>
      have place : index + (step :: front).length = index + 1 + front.length := by
        rw [List.length_cons]
        omega
      rw [List.cons_append, place]
      rcases polled : host.poll start.host with ⟨_ | reason, state⟩
      · rcases ran : runStep config host index step { start with host := state } with
          ⟨error | _, next⟩
        · simp only [runSteps, polled, ran]
        · rw [runSteps_cons pipeline polled ran, runSteps_cons pipeline polled ran]
          exact induction (index + 1) next
      · simp only [runSteps, polled]

end Run

namespace Pipeline

/-- The progress that a run starts from. -/
def start (pipeline : Pipeline) (config : RunConfig) (initial : KeyMap Value) (state : σ) :
    Progress σ :=
  Run.emit config (.started pipeline.name pipeline.steps.length)
    { store := .ofInitial initial, host := state }

/-- The result of a run whose steps are all done. -/
def result (pipeline : Pipeline) (last : Progress σ) : RunResult where
  pipelineName := pipeline.name
  artifacts := last.artifacts
  store := last.store
  completedSteps := pipeline.steps.length

theorem start_store (pipeline : Pipeline) (config : RunConfig) (initial : KeyMap Value)
    (state : σ) : (pipeline.start config initial state).store = .ofInitial initial :=
  Run.store_emit ..

theorem start_artifacts (pipeline : Pipeline) (config : RunConfig) (initial : KeyMap Value)
    (state : σ) : (pipeline.start config initial state).artifacts = [] := by
  simp [start, Run.emit_eq, Run.noted]

theorem execute_eq (pipeline : Pipeline) (config : RunConfig) (host : Host σ)
    (initial : KeyMap Value) (state : σ) :
    pipeline.execute config host initial state =
      match Run.runSteps config host pipeline.name 0 pipeline.steps
        (pipeline.start config initial state) with
      | (.error error, last) => (.error error, last)
      | (.ok (), last) => (.ok (pipeline.result last),
          Run.emit config (.completed pipeline.name last.artifacts.length) last) := rfl

theorem execute_fst (pipeline : Pipeline) (config : RunConfig) (host : Host σ)
    (initial : KeyMap Value) (state : σ) :
    (pipeline.execute config host initial state).1 =
      let ran := Run.runSteps config host pipeline.name 0 pipeline.steps
        (pipeline.start config initial state)
      ran.1.map fun _ => pipeline.result ran.2 := by
  rw [execute_eq]
  rcases Run.runSteps config host pipeline.name 0 pipeline.steps
    (pipeline.start config initial state) with ⟨error | _, last⟩ <;> rfl

end Pipeline

end Workflow
