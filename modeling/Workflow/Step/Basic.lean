import Workflow.Json.Basic

/-!
# Steps

A step is one unit of work of a pipeline.  It names the variables it reads and
those it binds; `Step.inputs` and `Step.outputs` collect them.
-/

namespace Workflow

/-- What a step does. -/
inductive StepKind where
  | generate
  | transform
  | save
  | vision
  | text
  | fanOut
  | collect
  | router
  deriving DecidableEq

namespace StepKind

def name : StepKind → String
  | generate => "generate"
  | transform => "transform"
  | save => "save"
  | vision => "vision"
  | text => "text"
  | fanOut => "fan-out"
  | collect => "collect"
  | router => "router"

def ofName? (name : String) : Option StepKind :=
  match name with
  | "generate" => some generate
  | "transform" => some transform
  | "save" => some save
  | "vision" => some vision
  | "text" => some text
  | "fan-out" => some fanOut
  | "collect" => some collect
  | "router" => some router
  | _ => none

/-- Whether the parameters of such a step are checked against a schema. -/
def isProviderBacked : StepKind → Bool
  | generate | transform | vision | text => true
  | save | fanOut | collect | router => false

/-- Whether such a step is carried out without a provider. -/
def isFlowControl : StepKind → Bool
  | fanOut | collect | router => true
  | generate | transform | save | vision | text => false

end StepKind

/-- A prompt that is read from a variable, or from a field of it. -/
structure PromptRef where
  name : String
  field : Option String := none
  deriving DecidableEq

/-- An image that is read from a variable, with its declared index. -/
structure ImageRef where
  name : String
  index : Nat
  deriving DecidableEq

/-- The references of a step. -/
structure Deferred where
  prompt : Option PromptRef := none
  /-- The reference images in the order of their edges. -/
  references : List ImageRef := []
  /-- The overlay images in ascending order of their index. -/
  overlays : List ImageRef := []
  deriving DecidableEq

namespace Deferred

/-- Whether a step has no reference. -/
def isEmpty (deferred : Deferred) : Bool :=
  deferred.prompt.isNone && deferred.references.isEmpty && deferred.overlays.isEmpty

/-- The variables that the references name. -/
def names (deferred : Deferred) : List String :=
  deferred.prompt.toList.map PromptRef.name ++
    deferred.references.map ImageRef.name ++ deferred.overlays.map ImageRef.name

end Deferred

/-- Generates an image. -/
structure GenerateStep where
  generator : String
  params : Params
  deferred : Deferred := {}
  out : String
  deriving DecidableEq

/-- Transforms an image. -/
structure TransformStep where
  operation : String
  input : String
  params : Params
  deferred : Deferred := {}
  out : String
  deriving DecidableEq

/-- Stores a value. -/
structure SaveStep where
  node : String
  input : String
  destination : String
  provider : String
  params : Params := ∅
  deriving DecidableEq

/-- Describes an image. -/
structure VisionStep where
  provider : String
  input : String
  context : Option String := none
  params : Params
  deferred : Deferred := {}
  out : String
  deriving DecidableEq

/-- Writes a text. -/
structure TextStep where
  provider : String
  input : Option String := none
  params : Params
  deferred : Deferred := {}
  out : String
  deriving DecidableEq

/-- How a fan-out fills its slots. -/
inductive FanOutMode where
  /-- Every slot holds the input. -/
  | count
  /-- Every slot holds one item of an array. -/
  | array
  deriving DecidableEq

namespace FanOutMode

def name : FanOutMode → String
  | count => "count"
  | array => "array"

def ofName? (name : String) : Option FanOutMode :=
  match name with
  | "count" => some count
  | "array" => some array
  | _ => none

end FanOutMode

/-- Splits a value into slots. -/
structure FanOutStep where
  node : String
  input : String
  mode : FanOutMode
  count : Nat
  /-- The field of the input that holds the array. -/
  arrayProperty : Option String := none
  /-- The variables of the slots. -/
  out : List String
  deriving DecidableEq

/-- Which inputs a collector needs. -/
inductive WaitMode where
  /-- All of them. -/
  | all
  /-- Those that are there. -/
  | available
  deriving DecidableEq

namespace WaitMode

def name : WaitMode → String
  | all => "all"
  | available => "available"

def ofName? (name : String) : Option WaitMode :=
  match name with
  | "all" => some all
  | "available" => some available
  | _ => none

end WaitMode

/-- Joins values into a list. -/
structure CollectStep where
  inputs : List String
  waitMode : WaitMode
  out : String
  deriving DecidableEq

/-- How a router understands its selection. -/
inductive SelectionType where
  /-- As indices of candidates. -/
  | index
  /-- As values to find among the candidates. -/
  | value
  deriving DecidableEq

namespace SelectionType

def name : SelectionType → String
  | index => "index"
  | value => "value"

def ofName? (name : String) : Option SelectionType :=
  match name with
  | "index" => some index
  | "value" => some value
  | _ => none

end SelectionType

/-- Selects among candidates. -/
structure RouterStep where
  input : String
  selectionInput : String
  selectionType : SelectionType
  /-- The field of the selection to read. -/
  selectionProperty : Option String := none
  /-- How many candidates are selected. -/
  outputCount : Nat
  /-- The field of the selection to bind beside the selected candidates. -/
  contextProperty : Option String := none
  out : String
  /-- The variable for that field. -/
  contextOut : Option String := none
  deriving DecidableEq

/-- One unit of work of a pipeline. -/
inductive Step where
  | generate (step : GenerateStep)
  | transform (step : TransformStep)
  | save (step : SaveStep)
  | vision (step : VisionStep)
  | text (step : TextStep)
  | fanOut (step : FanOutStep)
  | collect (step : CollectStep)
  | router (step : RouterStep)
  deriving DecidableEq

namespace Step

/-- The kind of a step. -/
def kind : Step → StepKind
  | generate _ => .generate
  | transform _ => .transform
  | save _ => .save
  | vision _ => .vision
  | text _ => .text
  | fanOut _ => .fanOut
  | collect _ => .collect
  | router _ => .router

/-- The id of the node that the step carries out. -/
def node : Step → String
  | generate s => s.out
  | transform s => s.out
  | save s => s.node
  | vision s => s.out
  | text s => s.out
  | fanOut s => s.node
  | collect s => s.out
  | router s => s.out

/-- The provider that the step asks. -/
def provider? : Step → Option String
  | generate s => some s.generator
  | transform s => some s.operation
  | save s => some s.provider
  | vision s => some s.provider
  | text s => some s.provider
  | fanOut _ | collect _ | router _ => none

/-- The parameters for the provider. -/
def params? : Step → Option Params
  | generate s => some s.params
  | transform s => some s.params
  | save s => some s.params
  | vision s => some s.params
  | text s => some s.params
  | fanOut _ | collect _ | router _ => none

/-- The references of a step whose kind has them. -/
def deferred? : Step → Option Deferred
  | generate s => some s.deferred
  | transform s => some s.deferred
  | vision s => some s.deferred
  | text s => some s.deferred
  | save _ | fanOut _ | collect _ | router _ => none

/-- The variable that the step works on. -/
def primaryInput? : Step → Option String
  | transform s => some s.input
  | save s => some s.input
  | vision s => some s.input
  | text s => s.input
  | fanOut s => some s.input
  | router s => some s.input
  | generate _ | collect _ => none

/-- The variables that only the step's kind reads. -/
def furtherInputs : Step → List String
  | collect s => s.inputs
  | router s => [s.selectionInput]
  | vision s => s.context.toList
  | generate _ | transform _ | save _ | text _ | fanOut _ => []

/-- Every variable that the step reads. -/
def inputs (step : Step) : List String :=
  step.primaryInput?.toList ++ step.furtherInputs ++
    match step.deferred? with
    | some deferred => deferred.names
    | none => []

/-- Every variable that the step binds, in the order of binding. -/
def outputs : Step → List String
  | generate s => [s.out]
  | transform s => [s.out]
  | vision s => [s.out]
  | text s => [s.out]
  | collect s => [s.out]
  | save _ => []
  | fanOut s => s.node :: s.out
  | router s => s.out :: s.contextOut.toList

end Step

/-- A named sequence of steps. -/
structure Pipeline where
  name : String
  steps : List Step
  deriving DecidableEq

namespace Pipeline

/-- The index of the first step of a node. -/
def position? (pipeline : Pipeline) (node : String) : Option Nat :=
  pipeline.steps.findIdx? fun step => step.node = node

end Pipeline

end Workflow
