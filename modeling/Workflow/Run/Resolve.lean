import Workflow.Run.Request
import Workflow.Run.Store

/-!
# Resolving references

Before a provider is asked, each reference of the step is replaced by what its
variable holds, and the parameters that the engine keeps for itself are taken
away.
-/

namespace Workflow

namespace Scope

/-- The value of a variable that must be bound. -/
def read (scope : Scope) (store : Store) (name : String) : Except RunError Value :=
  match store.get? name with
  | some value => .ok value
  | none => .error (.missingVariable scope name)

/-- The structured content of a variable. -/
def structured (scope : Scope) (name : String) (value : Value) : Except RunError Json :=
  match value.structured? with
  | some content => .ok content
  | none => .error (.unexpectedValue scope name "structured data" value.typeName)

/-- The value at a path of a variable's structured content. -/
def path (scope : Scope) (name : String) (content : Json) (path : String) :
    Except RunError Json :=
  match content.lookup? path with
  | some value => .ok value
  | none => .error (.missingField scope name path)

/-- A field of a variable's structured content. -/
def field (scope : Scope) (store : Store) (name field : String) : Except RunError Json := do
  let value ← scope.read store name
  let content ← scope.structured name value
  scope.path name content field

end Scope

namespace Resolve

/-- The parameters whose names start so are for the engine alone. -/
def internalMarker : String := "__"

/-- The parameters that a provider may see. -/
def visible (params : Params) : Params :=
  params.filter fun name _ => !Text.startsWith internalMarker name

/-- The text that goes before the prompt, unless it is blank. -/
def prePrompt? (params : Params) : Option String :=
  ((params.get? "prePrompt").bind Json.string?).filter fun text => !Text.isBlankText text

/-- The text that a prompt reference stands for. -/
def promptContent (scope : Scope) (store : Store) (reference : PromptRef) :
    Except RunError String :=
  match reference.field with
  | some field => (scope.field store reference.name field).map Structured.text
  | none => do
      let value ← scope.read store reference.name
      match value.textContent? with
      | some text => return text
      | none => throw (.unexpectedValue scope reference.name "text data" value.typeName)

/-- The prompt without what goes before it: that of the reference, else the
one among the parameters. -/
def promptBody (scope : Scope) (store : Store) (params : Params) :
    Option PromptRef → Except RunError (Option String)
  | some reference => (promptContent scope store reference).map some
  | none => .ok ((params.get? "prompt").bind Json.string?)

/-- The two parts of a prompt in one. -/
def joinPrompt (separator : String) : Option String → Option String → Option String
  | some before, some body => some (before ++ separator ++ body)
  | some before, none => some before
  | none, some body => some body
  | none, none => none

/-- The parameters with their prompt resolved. -/
def prompt (scope : Scope) (store : Store) (params : Params) (reference : Option PromptRef)
    (separator : String) : Except RunError Params := do
  let body ← promptBody scope store params reference
  let others := params.erase "prePrompt"
  match joinPrompt separator (prePrompt? params) body with
  | some text => return others.insert "prompt" (.string text)
  | none => return others

/-- The references to variables that are not bound. -/
def unbound (store : Store) (references : List ImageRef) : List ImageRef :=
  references.filter fun reference => !store.contains reference.name

/-- The images of the bound references, each of which must hold one. -/
def images (scope : Scope) (store : Store) : List ImageRef → Except RunError (List Image)
  | [] => .ok []
  | reference :: rest =>
      match store.get? reference.name with
      | none => images scope store rest
      | some value =>
          if value.images.isEmpty then
            .error (.unexpectedValue scope reference.name "an image" value.typeName)
          else
            (images scope store rest).map (value.images ++ ·)

/-- The reference images; all of their variables must be bound. -/
def referenceImages (scope : Scope) (store : Store) (references : List ImageRef) :
    Except RunError (List Image) := do
  let images ← images scope store references
  match unbound store references with
  | [] => return images
  | missing => throw (.missingImages scope .references missing)

/-- The settings for overlays among the parameters. -/
def overlaySettings (params : Params) : List Json :=
  match params.get? "overlays" with
  | some (.array items) => items
  | _ => []

/-- The overlays of the bound references, each of which must hold an image. -/
def boundOverlays (scope : Scope) (store : Store) (settings : List Json) :
    List ImageRef → Except RunError (List Overlay)
  | [] => .ok []
  | reference :: rest =>
      match store.get? reference.name with
      | none => boundOverlays scope store settings rest
      | some value =>
          match value.images.head? with
          | none => .error (.unexpectedValue scope reference.name "an image" value.typeName)
          | some image =>
              (boundOverlays scope store settings rest).map
                (⟨reference.index, image, settings[reference.index]?⟩ :: ·)

/-- The overlays; all of their variables must be bound. -/
def overlays (scope : Scope) (store : Store) (settings : List Json)
    (references : List ImageRef) : Except RunError (List Overlay) := do
  let overlays ← boundOverlays scope store settings references
  match unbound store references with
  | [] => return overlays
  | missing => throw (.missingImages scope .overlays missing)

end Resolve

/-- What is left of a step's parameters and references once they are
resolved. -/
structure Resolved where
  params : Params
  referenceImages : List Image
  overlays : List Overlay
  deriving DecidableEq

/-- Resolves the references of a step: its prompt first, then its reference
images, then its overlays.  A step with overlays gives up their settings. -/
def Deferred.resolve (deferred : Deferred) (scope : Scope) (store : Store) (params : Params)
    (separator : String) : Except RunError Resolved := do
  let params ← Resolve.prompt scope store (Resolve.visible params) deferred.prompt separator
  let referenceImages ← Resolve.referenceImages scope store deferred.references
  if deferred.overlays.isEmpty then
    return { params, referenceImages, overlays := [] }
  else
    let overlays ← Resolve.overlays scope store (Resolve.overlaySettings params) deferred.overlays
    return { params := params.erase "overlays", referenceImages, overlays }

end Workflow
