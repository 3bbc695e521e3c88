import Workflow.Base64
import Workflow.Document.Record
import Workflow.Sha256
import Workflow.Value.Basic

/-!
# Artifacts

An artifact records an image or a text that a provider produced.  Without a
name of its own it is named after its variable and its content.
-/

namespace Workflow

/-- The name of content bound to a variable: the variable and the first twelve
hexadecimal digits of the content's SHA-256 digest. -/
def contentId (name : String) (content : List UInt8) : String :=
  name ++ "-" ++ String.ofList ((Sha256.hexDigest content).take 12)

/-- An image or text that a provider produced. -/
structure Artifact where
  id : String
  stepIndex : Nat
  node : String
  variableName : String
  mimeType : String
  data : List UInt8
  url : Option String := none
  deriving DecidableEq

namespace Artifact

/-- The record of an image. -/
def ofImage (stepIndex : Nat) (node variableName : String) (image : Image) : Artifact :=
  { id := image.id.getD (contentId variableName image.data)
    stepIndex, node, variableName
    mimeType := image.mimeType.getD ""
    data := image.data
    url := image.url }

/-- The record of a text. -/
def ofText (stepIndex : Nat) (node variableName text : String) : Artifact :=
  { id := contentId variableName (Text.bytes text)
    stepIndex, node, variableName
    mimeType := "text/plain"
    data := Text.bytes text }

mutual

/-- The records of the images and texts of a value from left to right. -/
def ofValue (stepIndex : Nat) (node variableName : String) : Value → List Artifact
  | .image image => [ofImage stepIndex node variableName image]
  | .data text => [ofText stepIndex node variableName text]
  | .list items => ofItems stepIndex node variableName items

/-- The records of the items of a list from left to right. -/
def ofItems (stepIndex : Nat) (node variableName : String) : List Value → List Artifact
  | [] => []
  | item :: items =>
      ofValue stepIndex node variableName item ++ ofItems stepIndex node variableName items

end

def toDocument (artifact : Artifact) : Document :=
  .record <|
    Document.member "id" (.string artifact.id) ++
    Document.member "stepIndex" (.nat artifact.stepIndex) ++
    Document.member "nodeId" (.string artifact.node) ++
    Document.member "variable" (.string artifact.variableName) ++
    Document.member "mimeType" (.string artifact.mimeType) ++
    Document.member "data" (.string (Base64.encode artifact.data)) ++
    Document.member? "url" .string artifact.url

end Artifact

end Workflow
