import Workflow.Json.Basic

/-!
# Dotted paths

A dotted path names a place inside a JSON value: each piece between dots is
the name of an object's member or the index of an array's item.
-/

namespace Workflow.Json

/-- The value one step further inside a value. -/
def child? : Json → String → Option Json
  | object members, piece => members.lookup piece
  | array items, piece => (Text.natural? piece).bind fun index => items[index]?
  | _, _ => none

/-- The value at the end of a list of steps. -/
def descend? : Json → List String → Option Json
  | value, [] => some value
  | value, piece :: pieces => (value.child? piece).bind fun next => next.descend? pieces

/-- The value at a dotted path. -/
def lookup? (value : Json) (path : String) : Option Json :=
  value.descend? (Text.split '.' path)

end Workflow.Json
