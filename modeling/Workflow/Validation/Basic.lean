import Workflow.Double.Decimal
import Workflow.Schema.Basic
import Workflow.Validation.Issue

/-!
# Validation of pipelines

Each step with a provider is checked against the provider's schema.  Validation
only reports; it neither fails nor changes the pipeline.
-/

namespace Workflow

/-- How strictly a pipeline is checked. -/
structure ValidatorOptions where
  /-- Whether an undeclared parameter is an error rather than a warning. -/
  strictUnknownParams : Bool := false
  /-- Whether a provider without a schema is an error. -/
  requireSchemas : Bool := false
  /-- Parameters whose names start so are not looked at. -/
  markerPrefix : String := "__"
  deriving DecidableEq

namespace ValidatorOptions

/-- The options under which everything suspicious is an error. -/
def strict : ValidatorOptions :=
  { strictUnknownParams := true, requireSchemas := true }

/-- Whether a parameter is not looked at. -/
def isInternal (options : ValidatorOptions) (name : String) : Bool :=
  !options.markerPrefix.isEmpty && Text.startsWith options.markerPrefix name

end ValidatorOptions

namespace Validation

/-- A bound or number in a message: the point is always in place, and whole
numbers have no point. -/
def boundLayout : Double.Layout :=
  { inPlace := fun _ => true, wholeEnding := "", tie := .upward }

/-- The text of a bound or number in a message. -/
def boundText (value : Double) : String :=
  String.ofList (boundLayout.text value)

/-- Parameters that the engine uses itself. -/
def engineParams : List String := ["prePrompt"]

/-- Parameters that a step has from its references and its inputs. -/
def supplied (step : Step) : List String :=
  let fromReferences := match step.deferred? with
    | some deferred =>
        (if deferred.prompt.isSome then ["prompt"] else []) ++
          (if deferred.references.isEmpty then [] else ["referenceImages"]) ++
          (if deferred.overlays.isEmpty then [] else ["overlays"])
    | none => []
  let fromInputs := match step with
    | .transform _ => ["image"]
    | .vision s => "image" :: if s.context.isSome then ["context"] else []
    | .text s => if s.input.isSome then ["context"] else []
    | _ => []
  fromReferences ++ fromInputs

/-- The message for a string that is not among the allowed values. -/
def allowedMessage? (name : String) (spec : ParamSpec) (value : Json) : Option String :=
  match spec.allowed, value with
  | some allowed, .string text =>
      let choices := Text.join ", " allowed
      if allowed.contains text then none
      else some s!"Parameter '{name}' must be one of [{choices}], got '{text}'"
  | _, _ => none

/-- The message for a number beyond its bounds; the lower one counts first. -/
def boundMessage? (name : String) (spec : ParamSpec) (value : Double) : Option String :=
  let got := boundText value
  match spec.minimum.filter fun minimum => value.less minimum with
  | some minimum =>
      let bound := boundText minimum
      some s!"Parameter '{name}' must be >= {bound}, got {got}"
  | none =>
      match spec.maximum.filter fun maximum => maximum.less value with
      | some maximum =>
          let bound := boundText maximum
          some s!"Parameter '{name}' must be <= {bound}, got {got}"
      | none => none

/-- The message for a value that its declaration refuses. -/
def valueMessage? (name : String) (spec : ParamSpec) (value : Json) : Option String :=
  if spec.type.accepts value then
    match allowedMessage? name spec value with
    | some message => some message
    | none =>
        if spec.type.isNumeric then
          (value.number?.bind Number.toDouble?).bind (boundMessage? name spec)
        else
          none
  else
    some s!"Parameter '{name}' must be {spec.type.name}, got {value.typeName}"

/-- A required parameter that is absent, unless the step has it otherwise. -/
def missingIssue? (options : ValidatorOptions) (step : Step) (params : Params)
    (issue : Severity → IssueKind → String → Option String → Issue) (provider name : String) :
    Option Issue :=
  if options.isInternal name || (supplied step).contains name ||
      (params.value? name).isSome then
    none
  else
    some (issue .error .missingRequiredParam
      s!"Missing required parameter '{name}' for '{provider}'" (some name))

/-- A parameter that is not declared, or whose value is refused. -/
def paramIssue? (options : ValidatorOptions) (schema : ProviderSchema)
    (issue : Severity → IssueKind → String → Option String → Issue) (provider name : String)
    (value : Json) : Option Issue :=
  if options.isInternal name || engineParams.contains name || value.isNull then
    none
  else
    match schema.parameters.get? name with
    | none =>
        let severity := if options.strictUnknownParams then Severity.error else .warning
        some (issue severity .unknownParam
          s!"Parameter '{name}' is not declared by '{provider}'" (some name))
    | some spec =>
        (valueMessage? name spec value).map fun message =>
          issue .error .invalidParamType message (some name)

/-- The issues of a step with a provider. -/
def providerIssues (registry : Registry) (options : ValidatorOptions) (index : Nat)
    (step : Step) (provider : String) (params : Params) : List Issue :=
  let issue (severity : Severity) (kind : IssueKind) (message : String)
      (parameter : Option String) : Issue :=
    { severity, kind, message, stepIndex := index, stepKind := step.kind, provider, parameter }
  match registry.get? provider step.kind with
  | none =>
      if options.requireSchemas then
        [issue .error .unknownProvider
          s!"No schema registered for {step.kind.name} provider '{provider}'" none]
      else
        []
  | some schema =>
      schema.required.filterMap (missingIssue? options step params issue provider) ++
        params.entries.filterMap fun entry =>
          paramIssue? options schema issue provider entry.1 entry.2

/-- The issues of a step. -/
def stepIssues (registry : Registry) (options : ValidatorOptions) (index : Nat)
    (step : Step) : List Issue :=
  if step.kind.isProviderBacked then
    match step.provider?, step.params? with
    | some provider, some params => providerIssues registry options index step provider params
    | _, _ => []
  else
    []

/-- The issues of steps of which the first has the given index. -/
def issuesFrom (registry : Registry) (options : ValidatorOptions) :
    Nat → List Step → List Issue
  | _, [] => []
  | index, step :: steps =>
      stepIssues registry options index step ++ issuesFrom registry options (index + 1) steps

end Validation

/-- The issues of a pipeline, in the order of its steps. -/
def Pipeline.validate (pipeline : Pipeline) (registry : Registry)
    (options : ValidatorOptions := {}) : List Issue :=
  Validation.issuesFrom registry options 0 pipeline.steps

end Workflow
