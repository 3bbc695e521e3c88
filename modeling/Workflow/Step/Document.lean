import Workflow.Document.Printer
import Workflow.Document.Reader
import Workflow.Document.Record
import Workflow.Step.Basic

/-!
# Pipeline documents

Reads and writes pipelines.  A step is a record whose `kind` tells which other
fields it has; options that are absent and lists that are empty are left out.
-/

namespace Workflow

namespace StepKind

def toDocument (kind : StepKind) : Document := .string kind.name

end StepKind

namespace PromptRef

def ofDocument? (document : Document) : Option PromptRef := do
  let fields ← document.fields? [⟨"variable", []⟩, ⟨"field", []⟩]
  let name ← fields.required "variable" Document.string?
  let field ← fields.optional "field" Document.string?
  some { name, field }

def toDocument (reference : PromptRef) : Document :=
  .record <|
    Document.member "variable" (.string reference.name) ++
    Document.member? "field" .string reference.field

end PromptRef

namespace ImageRef

def ofDocument? (document : Document) : Option ImageRef := do
  let fields ← document.fields? [⟨"variable", []⟩, ⟨"index", []⟩]
  let name ← fields.required "variable" Document.string?
  let index ← fields.required "index" Document.nat?
  some { name, index }

def toDocument (reference : ImageRef) : Document :=
  .record [("variable", .string reference.name), ("index", .nat reference.index)]

end ImageRef

namespace Deferred

def ofDocument? (document : Document) : Option Deferred := do
  let fields ← document.fields? [⟨"prompt", []⟩, ⟨"references", []⟩, ⟨"overlays", []⟩]
  let prompt ← fields.optional "prompt" PromptRef.ofDocument?
  let references ← fields.withDefault "references" (Document.list? ImageRef.ofDocument?) []
  let overlays ← fields.withDefault "overlays" (Document.list? ImageRef.ofDocument?) []
  some { prompt, references, overlays }

def toDocument (deferred : Deferred) : Document :=
  .record <|
    Document.member? "prompt" PromptRef.toDocument deferred.prompt ++
    Document.listMember "references" ImageRef.toDocument deferred.references ++
    Document.listMember "overlays" ImageRef.toDocument deferred.overlays

/-- The member of a step that holds its references, if it has any. -/
def members (deferred : Deferred) : List (String × Document) :=
  if deferred.isEmpty then [] else Document.member "deferred" deferred.toDocument

end Deferred

namespace Step

/-- A step stands behind two levels, the pipeline and its list of steps. -/
def maxLevels : Nat := Document.maxLevels - 2

/-- A word of a fixed vocabulary within a step.  Beside the forms that a word
has everywhere, the record that names it may hold an empty record. -/
def word? (meaning : String → Option α) : Document → Option α
  | .record [(name, .record [])] => meaning name
  | document => document.word? meaning

/-- Reads the parameters of a step. -/
def params (fields : Document.Fields) : Option Params :=
  fields.required "params" (Document.params? (maxLevels - 1))

/-- Reads the references of a step. -/
def deferred (fields : Document.Fields) : Option Deferred :=
  fields.withDefault "deferred" Deferred.ofDocument? {}

/-- Reads a generate step. -/
def generate? (document : Document) : Option Step := do
  let fields ← document.fields? [⟨"generator", []⟩, ⟨"params", []⟩, ⟨"deferred", []⟩, ⟨"out", []⟩]
  let generator ← fields.required "generator" Document.string?
  let params ← params fields
  let deferred ← deferred fields
  let out ← fields.required "out" Document.string?
  some (.generate { generator, params, deferred, out })

/-- Reads a transform step. -/
def transform? (document : Document) : Option Step := do
  let fields ← document.fields?
    [⟨"op", []⟩, ⟨"in", []⟩, ⟨"params", []⟩, ⟨"deferred", []⟩, ⟨"out", []⟩]
  let operation ← fields.required "op" Document.string?
  let input ← fields.required "in" Document.string?
  let params ← params fields
  let deferred ← deferred fields
  let out ← fields.required "out" Document.string?
  some (.transform { operation, input, params, deferred, out })

/-- Reads a save step. -/
def save? (document : Document) : Option Step := do
  let fields ← document.fields?
    [⟨"nodeId", []⟩, ⟨"in", []⟩, ⟨"destination", []⟩, ⟨"provider", []⟩, ⟨"params", []⟩]
  let node ← fields.required "nodeId" Document.string?
  let input ← fields.required "in" Document.string?
  let destination ← fields.required "destination" Document.string?
  let provider ← fields.required "provider" Document.string?
  let params ← fields.withDefault "params" (Document.params? (maxLevels - 1)) ∅
  some (.save { node, input, destination, provider, params })

/-- Reads a vision step. -/
def vision? (document : Document) : Option Step := do
  let fields ← document.fields?
    [⟨"provider", []⟩, ⟨"in", []⟩, ⟨"context", []⟩, ⟨"params", []⟩, ⟨"deferred", []⟩, ⟨"out", []⟩]
  let provider ← fields.required "provider" Document.string?
  let input ← fields.required "in" Document.string?
  let context ← fields.optional "context" Document.string?
  let params ← params fields
  let deferred ← deferred fields
  let out ← fields.required "out" Document.string?
  some (.vision { provider, input, context, params, deferred, out })

/-- Reads a text step. -/
def text? (document : Document) : Option Step := do
  let fields ← document.fields?
    [⟨"provider", []⟩, ⟨"in", []⟩, ⟨"params", []⟩, ⟨"deferred", []⟩, ⟨"out", []⟩]
  let provider ← fields.required "provider" Document.string?
  let input ← fields.optional "in" Document.string?
  let params ← params fields
  let deferred ← deferred fields
  let out ← fields.required "out" Document.string?
  some (.text { provider, input, params, deferred, out })

/-- Reads a fan-out step. -/
def fanOut? (document : Document) : Option Step := do
  let fields ← document.fields?
    [⟨"nodeId", []⟩, ⟨"in", []⟩, ⟨"mode", []⟩, ⟨"count", []⟩, ⟨"arrayProperty", []⟩, ⟨"out", []⟩]
  let node ← fields.required "nodeId" Document.string?
  let input ← fields.required "in" Document.string?
  let mode ← fields.required "mode" (word? FanOutMode.ofName?)
  let count ← fields.required "count" Document.nat?
  let arrayProperty ← fields.optional "arrayProperty" Document.string?
  let out ← fields.required "out" (Document.list? Document.string?)
  some (.fanOut { node, input, mode, count, arrayProperty, out })

/-- Reads a collect step. -/
def collect? (document : Document) : Option Step := do
  let fields ← document.fields? [⟨"in", []⟩, ⟨"waitMode", []⟩, ⟨"out", []⟩]
  let inputs ← fields.required "in" (Document.list? Document.string?)
  let waitMode ← fields.required "waitMode" (word? WaitMode.ofName?)
  let out ← fields.required "out" Document.string?
  some (.collect { inputs, waitMode, out })

/-- Reads a router step. -/
def router? (document : Document) : Option Step := do
  let fields ← document.fields?
    [⟨"in", []⟩, ⟨"selectionIn", []⟩, ⟨"selectionType", []⟩, ⟨"selectionProperty", []⟩,
      ⟨"outputCount", []⟩, ⟨"contextProperty", []⟩, ⟨"out", []⟩, ⟨"contextOut", []⟩]
  let input ← fields.required "in" Document.string?
  let selectionInput ← fields.required "selectionIn" Document.string?
  let selectionType ← fields.required "selectionType" (word? SelectionType.ofName?)
  let selectionProperty ← fields.optional "selectionProperty" Document.string?
  let outputCount ← fields.required "outputCount" Document.nat?
  let contextProperty ← fields.optional "contextProperty" Document.string?
  let out ← fields.required "out" Document.string?
  let contextOut ← fields.optional "contextOut" Document.string?
  some (.router {
    input, selectionInput, selectionType, selectionProperty, outputCount, contextProperty, out,
    contextOut })

/-- Reads the fields of a step of a kind. -/
def ofFields? (kind : StepKind) (document : Document) : Option Step :=
  match kind with
  | .generate => generate? document
  | .transform => transform? document
  | .save => save? document
  | .vision => vision? document
  | .text => text? document
  | .fanOut => fanOut? document
  | .collect => collect? document
  | .router => router? document

/-- Reads the kind of a step from its members. -/
def kindOf? (members : List (String × Document)) : Option StepKind := do
  let fields ← Document.gather ⟨"kind", []⟩ members
  (← fields.required "kind" Document.string?) |> StepKind.ofName?

/-- Reads a step.  Every part of it must be usable, whether known or not. -/
def ofDocument? (document : Document) : Option Step := do
  let _ ← document.toJson? maxLevels
  match document with
  | .record members =>
      ofFields? (← kindOf? members) (.record (members.filter fun entry => entry.1 ≠ "kind"))
  | .list (.string kind :: fields) => ofFields? (← StepKind.ofName? kind) (.list fields)
  | _ => none

/-- The members of a step's document after its kind. -/
def members : Step → List (String × Document)
  | generate s =>
      Document.member "generator" (.string s.generator) ++
      Document.member "params" (.ofParams s.params) ++
      s.deferred.members ++
      Document.member "out" (.string s.out)
  | transform s =>
      Document.member "op" (.string s.operation) ++
      Document.member "in" (.string s.input) ++
      Document.member "params" (.ofParams s.params) ++
      s.deferred.members ++
      Document.member "out" (.string s.out)
  | save s =>
      Document.member "nodeId" (.string s.node) ++
      Document.member "in" (.string s.input) ++
      Document.member "destination" (.string s.destination) ++
      Document.member "provider" (.string s.provider) ++
      Document.member "params" (.ofParams s.params)
  | vision s =>
      Document.member "provider" (.string s.provider) ++
      Document.member "in" (.string s.input) ++
      Document.member? "context" .string s.context ++
      Document.member "params" (.ofParams s.params) ++
      s.deferred.members ++
      Document.member "out" (.string s.out)
  | text s =>
      Document.member "provider" (.string s.provider) ++
      Document.member? "in" .string s.input ++
      Document.member "params" (.ofParams s.params) ++
      s.deferred.members ++
      Document.member "out" (.string s.out)
  | fanOut s =>
      Document.member "nodeId" (.string s.node) ++
      Document.member "in" (.string s.input) ++
      Document.member "mode" (.string s.mode.name) ++
      Document.member "count" (.nat s.count) ++
      Document.member? "arrayProperty" .string s.arrayProperty ++
      Document.member "out" (.strings s.out)
  | collect s =>
      Document.member "in" (.strings s.inputs) ++
      Document.member "waitMode" (.string s.waitMode.name) ++
      Document.member "out" (.string s.out)
  | router s =>
      Document.member "in" (.string s.input) ++
      Document.member "selectionIn" (.string s.selectionInput) ++
      Document.member "selectionType" (.string s.selectionType.name) ++
      Document.member? "selectionProperty" .string s.selectionProperty ++
      Document.member "outputCount" (.nat s.outputCount) ++
      Document.member? "contextProperty" .string s.contextProperty ++
      Document.member "out" (.string s.out) ++
      Document.member? "contextOut" .string s.contextOut

def toDocument (step : Step) : Document :=
  .record (("kind", step.kind.toDocument) :: step.members)

end Step

namespace Pipeline

def ofDocument? (document : Document) : Option Pipeline := do
  let fields ← document.fields? [⟨"name", []⟩, ⟨"steps", []⟩]
  let name ← fields.required "name" Document.string?
  let steps ← fields.required "steps" (Document.list? Step.ofDocument?)
  some { name, steps }

def toDocument (pipeline : Pipeline) : Document :=
  .record [("name", .string pipeline.name), ("steps", .list (pipeline.steps.map Step.toDocument))]

/-- Reads the pipeline document that fills a text. -/
def ofText? (text : String) : Option Pipeline :=
  (Document.ofText? text).bind ofDocument?

def text (pipeline : Pipeline) : String :=
  pipeline.toDocument.text

end Pipeline

end Workflow
