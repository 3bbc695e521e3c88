import Workflow.Run.Artifact
import Workflow.Run.Event
import Workflow.Run.Flow

/-!
# Running pipelines

A pipeline is run step by step, in order, on one store.  Flow control is
carried out at once; every other step sends one request to the host, which
answers for all providers.  The host also tells, before each step, whether the
run is cancelled.  A host is any function of its own state, so what it answers
may depend on all that it was asked before.

A run leaves a `Progress`: its bindings, artifacts, events and requests, and the
state of the host.
-/

namespace Workflow

/-- Settings of runs. -/
structure RunConfig where
  /-- The MIME type of images that come without one. -/
  defaultImageMime : String := "image/png"
  /-- What stands between the two parts of a prompt. -/
  promptSeparator : String := "\n\n"
  /-- Whether the run reports events. -/
  emitEvents : Bool := true
  deriving DecidableEq

/-- The outside of a run: its providers and its cancellation. -/
structure Host (σ : Type) where
  /-- Answers a request. -/
  serve : σ → Request → Reply × σ
  /-- Tells before a step for what reason the run is cancelled, if it is. -/
  poll : σ → Option String × σ

/-- What a step comes to when its references are resolved: bindings, or a
request whose answer is still to come. -/
inductive Action where
  | bind (bindings : Bindings)
  | ask (request : Request)
  deriving DecidableEq

/-- What has come of a run so far. -/
structure Progress (σ : Type) where
  store : Store
  artifacts : List Artifact := []
  events : List Event := []
  requests : List Request := []
  host : σ

/-- A successful run. -/
structure RunResult where
  pipelineName : String
  artifacts : List Artifact
  store : Store
  completedSteps : Nat
  deriving DecidableEq

namespace RunResult

/-- The value of a variable. -/
def value? (result : RunResult) (name : String) : Option Value :=
  result.store.get? name

/-- The artifacts of a node. -/
def artifactsOf (result : RunResult) (node : String) : List Artifact :=
  result.artifacts.filter fun artifact => artifact.node = node

def toDocument (result : RunResult) : Document :=
  .record [
    ("pipelineName", .string result.pipelineName),
    ("artifacts", .list (result.artifacts.map Artifact.toDocument)),
    ("variables", result.store.toDocument),
    ("completedSteps", .nat result.completedSteps)]

end RunResult

namespace Step

/-- How errors name the step with an index. -/
def scope (step : Step) (index : Nat) : Scope :=
  { index, node := step.node, kind := step.kind }

/-- Whether the step works on an image. -/
def requiresImage : Step → Bool
  | transform _ | vision _ => true
  | generate _ | save _ | text _ | fanOut _ | collect _ | router _ => false

/-- The auxiliary variable of a vision step. -/
def context? : Step → Option String
  | vision s => s.context
  | _ => none

/-- The parameters for the provider of a step; a save step adds its
destination. -/
def requestParams : Step → Params
  | save s => s.params.insert "destination" (.string s.destination)
  | step => step.params?.getD ∅

end Step

namespace Run

/-- The value that a step works on. -/
def input (scope : Scope) (store : Store) (step : Step) : Except RunError (Option Value) :=
  match step.primaryInput? with
  | none => .ok none
  | some name => do
      let value ← scope.read store name
      if step.requiresImage ∧ value.images = [] then
        throw (.unexpectedValue scope name "an image" value.typeName)
      else
        return some value

/-- The auxiliary value of a step. -/
def context (scope : Scope) (store : Store) (step : Step) : Except RunError (Option Value) :=
  match step.context? with
  | none => .ok none
  | some name => (scope.read store name).map some

/-- The request of a step to its provider. -/
def request (config : RunConfig) (scope : Scope) (store : Store) (step : Step)
    (provider : String) : Except RunError Request := do
  let input ← input scope store step
  let context ← context scope store step
  let resolved ← (step.deferred?.getD {}).resolve scope store step.requestParams
    config.promptSeparator
  return {
    stepIndex := scope.index
    node := scope.node
    kind := scope.kind
    provider
    params := resolved.params
    input, context
    referenceImages := resolved.referenceImages
    overlays := resolved.overlays }

/-- What a step comes to on a store. -/
def action (config : RunConfig) (index : Nat) (store : Store) (step : Step) :
    Except RunError Action :=
  let scope := step.scope index
  match step with
  | .fanOut s => (Flow.fanOut scope store s).map .bind
  | .collect s => (Flow.collect scope store s).map .bind
  | .router s => (Flow.route scope store s).map .bind
  | .generate s => (request config scope store step s.generator).map .ask
  | .transform s => (request config scope store step s.operation).map .ask
  | .save s => (request config scope store step s.provider).map .ask
  | .vision s => (request config scope store step s.provider).map .ask
  | .text s => (request config scope store step s.provider).map .ask

/-- An image with a MIME type and a name, which it is given where it comes
without them. -/
def completeImage (config : RunConfig) (name : String) (image : Image) : Image :=
  { image with
    mimeType := some (image.mimeType.getD config.defaultImageMime)
    id := some (image.id.getD (contentId name image.data)) }

/-- The bindings that an output makes: none for a save step, else the step's
variable with the output's value. -/
def outputBindings (config : RunConfig) (scope : Scope) (step : Step) (output : Output) :
    Except RunError Bindings :=
  match step with
  | .save _ => .ok []
  | _ =>
      match output.value? with
      | none => .error (.emptyOutput scope)
      | some value => .ok [(step.node, value.mapImages (completeImage config step.node))]

/-- The bindings that an answer makes. -/
def replyBindings (config : RunConfig) (index : Nat) (step : Step) (reply : Reply) :
    Except RunError Bindings :=
  let scope := step.scope index
  match reply with
  | .error failure => .error (.stepFailed scope (step.provider?.getD "") failure)
  | .ok output => outputBindings config scope step output

/-- Reports an event, if the run reports events. -/
def emit (config : RunConfig) (event : Event) (progress : Progress σ) : Progress σ :=
  if config.emitEvents then { progress with events := progress.events ++ [event] } else progress

/-- Carries out a step up to its bindings. -/
def perform (config : RunConfig) (host : Host σ) (index : Nat) (step : Step)
    (progress : Progress σ) : Except RunError Bindings × Progress σ :=
  match action config index progress.store step with
  | .error error => (.error error, progress)
  | .ok (.bind bindings) => (.ok bindings, progress)
  | .ok (.ask request) =>
      let (reply, state) := host.serve progress.host request
      (replyBindings config index step reply,
        { progress with requests := progress.requests ++ [request], host := state })

/-- Makes the bindings of a step.  What a provider returned is recorded before
it is bound. -/
def commit (index : Nat) (step : Step) :
    Bindings → Progress σ → Except RunError Unit × Progress σ
  | [], progress => (.ok (), progress)
  | (name, value) :: bindings, progress =>
      let recorded :=
        if step.kind.isProviderBacked then Artifact.ofValue index step.node name value else []
      let progress := { progress with artifacts := progress.artifacts ++ recorded }
      match progress.store.bind name value with
      | .error error => (.error error, progress)
      | .ok store => commit index step bindings { progress with store }

/-- Runs one step. -/
def runStep (config : RunConfig) (host : Host σ) (index : Nat) (step : Step)
    (progress : Progress σ) : Except RunError Unit × Progress σ :=
  let progress := emit config (.stepStarted index step.node step.kind) progress
  match perform config host index step progress with
  | (.error error, progress) =>
      (.error error,
        emit config (.stepFailed index step.node step.kind error.code error.message) progress)
  | (.ok bindings, progress) =>
      match commit index step bindings progress with
      | (.error error, progress) => (.error error, progress)
      | (.ok (), progress) =>
          (.ok (), emit config
            (.stepCompleted index step.node step.kind (bindings.map Prod.fst)) progress)

/-- Runs steps, of which the first has the given index, until one fails or the
host cancels the run. -/
def runSteps (config : RunConfig) (host : Host σ) (pipeline : String) :
    Nat → List Step → Progress σ → Except RunError Unit × Progress σ
  | _, [], progress => (.ok (), progress)
  | index, step :: steps, progress =>
      match host.poll progress.host with
      | (some reason, state) =>
          (.error (.cancelled reason index),
            emit config (.cancelled pipeline reason index) { progress with host := state })
      | (none, state) =>
          match runStep config host index step { progress with host := state } with
          | (.error error, progress) =>
              (.error error, emit config (.failed pipeline error.code error.message) progress)
          | (.ok (), progress) => runSteps config host pipeline (index + 1) steps progress

end Run

/-- Runs a pipeline from initial values and a state of the host. -/
def Pipeline.execute (pipeline : Pipeline) (config : RunConfig) (host : Host σ)
    (initial : KeyMap Value) (state : σ) : Except RunError RunResult × Progress σ :=
  let progress := Run.emit config (.started pipeline.name pipeline.steps.length)
    { store := .ofInitial initial, host := state }
  match Run.runSteps config host pipeline.name 0 pipeline.steps progress with
  | (.error error, progress) => (.error error, progress)
  | (.ok (), progress) =>
      (.ok {
        pipelineName := pipeline.name
        artifacts := progress.artifacts
        store := progress.store
        completedSteps := pipeline.steps.length },
        Run.emit config (.completed pipeline.name progress.artifacts.length) progress)

end Workflow
