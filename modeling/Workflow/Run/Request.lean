import Workflow.Failure
import Workflow.Step.Basic
import Workflow.Value.Document

/-!
# Requests to providers

A request holds all that a provider needs for one step: no reference is left
in it, and no parameter that the engine keeps for itself.
-/

namespace Workflow

/-- An overlay image with its settings. -/
structure Overlay where
  /-- The declared index. -/
  index : Nat
  image : Image
  /-- The item at that index of the step's list of overlay settings. -/
  settings : Option Json := none
  deriving DecidableEq

def Overlay.toDocument (overlay : Overlay) : Document :=
  .record <|
    Document.member "index" (.nat overlay.index) ++
    Document.member "image" overlay.image.toDocument ++
    Document.member? "settings" Document.ofJson overlay.settings

/-- A request to a provider. -/
structure Request where
  stepIndex : Nat
  node : String
  kind : StepKind
  provider : String
  params : Params := ∅
  /-- The value that the step works on. -/
  input : Option Value := none
  /-- The auxiliary value of a vision step. -/
  context : Option Value := none
  referenceImages : List Image := []
  overlays : List Overlay := []
  deriving DecidableEq

namespace Request

/-- The prompt among the parameters. -/
def prompt? (request : Request) : Option String :=
  (request.params.get? "prompt").bind Json.string?

/-- The value that the step works on, if it is an image. -/
def inputImage? (request : Request) : Option Image :=
  request.input.bind Value.image?

def toDocument (request : Request) : Document :=
  .record <|
    Document.member "stepIndex" (.nat request.stepIndex) ++
    Document.member "nodeId" (.string request.node) ++
    Document.member "kind" (.string request.kind.name) ++
    Document.member "provider" (.string request.provider) ++
    Document.member "params" (.ofParams request.params) ++
    Document.member? "input" Value.toDocument request.input ++
    Document.member? "context" Value.toDocument request.context ++
    Document.member "referenceImages" (.list (request.referenceImages.map Image.toDocument)) ++
    Document.member "overlays" (.list (request.overlays.map Overlay.toDocument))

end Request

/-- What a provider returns. -/
inductive Output where
  | empty
  | value (value : Value)
  | values (values : List Value)
  deriving DecidableEq

namespace Output

/-- The value of an output: a single value as such, several values as a
list. -/
def value? : Output → Option Value
  | empty => none
  | value result => some result
  | values [] => none
  | values [result] => some result
  | values results => some (.list results)

end Output

/-- An answer to a request. -/
abbrev Reply := Except Failure Output

end Workflow
