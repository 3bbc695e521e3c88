import Workflow.Document.Printer
import Workflow.Document.Reader
import Workflow.Document.Record
import Workflow.Schema.Basic

/-!
# Schema documents

Reads and writes schemas, and reads registries as lists of schemas.
-/

namespace Workflow

namespace ParamSpec

def knownFields : List Field :=
  [⟨"type", []⟩, ⟨"required", []⟩, ⟨"enum", []⟩, ⟨"minimum", []⟩, ⟨"maximum", []⟩,
    ⟨"description", []⟩]

def ofDocument? (document : Document) : Option ParamSpec := do
  let fields ← document.fields? knownFields
  let type ← fields.required "type" (Document.word? ParamType.ofName?)
  let required ← fields.withDefault "required" Document.bool? false
  let allowed ← fields.optional "enum" (Document.list? Document.string?)
  let minimum ← fields.optional "minimum" Document.double?
  let maximum ← fields.optional "maximum" Document.double?
  let description ← fields.optional "description" Document.string?
  some { type, required, allowed, minimum, maximum, description }

/-- Writes a bound. -/
def boundDocument (bound : Double) : Document :=
  .number (.double bound)

def toDocument (spec : ParamSpec) : Document :=
  .record <|
    Document.member "type" (.string spec.type.name) ++
    Document.member "required" (.bool spec.required) ++
    Document.member? "enum" Document.strings spec.allowed ++
    Document.member? "minimum" boundDocument spec.minimum ++
    Document.member? "maximum" boundDocument spec.maximum ++
    Document.member? "description" .string spec.description

end ParamSpec

namespace ProviderSchema

def knownFields : List Field :=
  [⟨"name", []⟩, ⟨"kind", []⟩, ⟨"description", []⟩, ⟨"parameters", []⟩]

def ofDocument? (document : Document) : Option ProviderSchema := do
  let fields ← document.fields? knownFields
  let name ← fields.required "name" Document.string?
  let kind ← fields.optional "kind" (Document.word? StepKind.ofName?)
  let description ← fields.optional "description" Document.string?
  let parameters ← fields.withDefault "parameters" (Document.map? ParamSpec.ofDocument?) ∅
  some { name, kind, description, parameters }

def toDocument (schema : ProviderSchema) : Document :=
  .record <|
    Document.member "name" (.string schema.name) ++
    Document.member? "kind" (fun kind => .string kind.name) schema.kind ++
    Document.member? "description" .string schema.description ++
    Document.member "parameters"
      (.record (schema.parameters.entries.map fun entry => (entry.1, entry.2.toDocument)))

def text (schema : ProviderSchema) : String :=
  schema.toDocument.text

end ProviderSchema

namespace Registry

def ofDocument? (document : Document) : Option Registry :=
  (Document.list? ProviderSchema.ofDocument? document).map ofSchemas

/-- Reads the registry document that fills a text. -/
def ofText? (text : String) : Option Registry :=
  (Document.ofText? text).bind ofDocument?

end Registry

end Workflow
