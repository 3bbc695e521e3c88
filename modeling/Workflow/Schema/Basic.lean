import Workflow.Json.Basic
import Workflow.Step.Basic

/-!
# Schemas of providers

A schema declares the parameters of a provider: their types, which of them are
required, and the values they may have.  A registry holds at most one schema
for a name and a kind of step, and at most one for a name and any kind.
-/

namespace Workflow

/-- The type of a parameter. -/
inductive ParamType where
  | string
  | number
  /-- A number without a fractional part. -/
  | integer
  | boolean
  | array
  | object
  deriving DecidableEq

namespace ParamType

def name : ParamType → String
  | string => "string"
  | number => "number"
  | integer => "integer"
  | boolean => "boolean"
  | array => "array"
  | object => "object"

def ofName? (name : String) : Option ParamType :=
  match name with
  | "string" => some string
  | "number" => some number
  | "integer" => some integer
  | "boolean" => some boolean
  | "array" => some array
  | "object" => some object
  | _ => none

/-- Whether a value has the type. -/
def accepts : ParamType → Json → Bool
  | string, .string _ => true
  | number, .number _ => true
  | integer, .number value => value.isWhole
  | boolean, .bool _ => true
  | array, .array _ => true
  | object, .object _ => true
  | _, _ => false

/-- Whether values of the type have bounds. -/
def isNumeric : ParamType → Bool
  | number | integer => true
  | string | boolean | array | object => false

end ParamType

/-- The declaration of a parameter. -/
structure ParamSpec where
  type : ParamType
  required : Bool := false
  /-- The values that a string may have. -/
  allowed : Option (List String) := none
  /-- The least number allowed. -/
  minimum : Option Double := none
  /-- The greatest number allowed. -/
  maximum : Option Double := none
  description : Option String := none
  deriving DecidableEq

/-- The declarations of a provider's parameters. -/
structure ProviderSchema where
  name : String
  /-- The kind of step that the schema is for; without it, any kind. -/
  kind : Option StepKind := none
  description : Option String := none
  parameters : KeyMap ParamSpec := ∅
  deriving DecidableEq

namespace ProviderSchema

/-- The names of the required parameters in ascending order. -/
def required (schema : ProviderSchema) : List String :=
  (schema.parameters.filter fun _ spec => spec.required).names

/-- The schema with a parameter declared. -/
def declare (schema : ProviderSchema) (name : String) (spec : ParamSpec) : ProviderSchema :=
  { schema with parameters := schema.parameters.insert name spec }

/-- Whether two schemas are for the same name and kind. -/
def sameKey (a b : ProviderSchema) : Bool :=
  a.name = b.name && a.kind = b.kind

end ProviderSchema

/-- The registered schemas, the latest first. -/
structure Registry where
  schemas : List ProviderSchema := []

namespace Registry

/-- The registry with a schema, which takes the place of an older one for its
name and kind. -/
def register (registry : Registry) (schema : ProviderSchema) : Registry :=
  ⟨schema :: registry.schemas.filter fun older => !older.sameKey schema⟩

/-- The registry of schemas that are registered in order. -/
def ofSchemas (schemas : List ProviderSchema) : Registry :=
  schemas.foldl register {}

/-- The schema for a name and exactly this kind. -/
def find? (registry : Registry) (name : String) (kind : Option StepKind) :
    Option ProviderSchema :=
  registry.schemas.find? fun schema => schema.name = name && schema.kind = kind

/-- The schema for a provider of steps of a kind; one for that kind counts
before one for any kind. -/
def get? (registry : Registry) (name : String) (kind : StepKind) : Option ProviderSchema :=
  (registry.find? name (some kind)).or (registry.find? name none)

/-- The number of registered schemas. -/
def size (registry : Registry) : Nat :=
  registry.schemas.length

end Registry

end Workflow
