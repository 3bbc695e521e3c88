import Workflow.Json.Basic

/-!
# Documents

A document is what a JSON text says: members stand in the order written, and
repetitions are kept, so that a record's reader can refuse them.  A part that
follows the grammar and denotes nothing, such as a number beyond the range of
doubles, is `unusable`; it does no harm where nobody asks for its value.

`Document.toJson?` asks for the value of a whole document, and
`Document.ofJson` writes a value as a document.
-/

namespace Workflow

/-- The content of a JSON text. -/
inductive Document where
  | null
  | bool (value : Bool)
  | number (value : Number)
  | string (value : String)
  | list (items : List Document)
  | record (members : List (String × Document))
  | unusable
  deriving Inhabited

namespace Document

/-- How many levels of lists and records a value may have. -/
def maxLevels : Nat := 127

/-- A whole number as a document. -/
def nat (value : Nat) : Document := number (.int value)

/-- A list of texts as a document. -/
def strings (values : List String) : Document := list (values.map string)

mutual

/-- The value of a document that has at most the given number of levels and no
unusable part.  Of two members of one name the later counts. -/
def toJson? : Nat → Document → Option Json
  | _, null => some .null
  | _, bool value => some (.bool value)
  | _, number value => some (.number value)
  | _, string value => some (.string value)
  | levels + 1, list items => (itemsToJson? levels items).map .array
  | levels + 1, record members =>
      (membersToJson? levels members).map fun values => .ofMap (KeyMap.ofList values)
  | 0, list _ => none
  | 0, record _ => none
  | _, unusable => none

/-- The values of a list of documents. -/
def itemsToJson? : Nat → List Document → Option (List Json)
  | _, [] => some []
  | levels, item :: items => do
      let value ← toJson? levels item
      let values ← itemsToJson? levels items
      some (value :: values)

/-- The values of a list of members. -/
def membersToJson? : Nat → List (String × Document) → Option (List (String × Json))
  | _, [] => some []
  | levels, (name, content) :: members => do
      let value ← toJson? levels content
      let values ← membersToJson? levels members
      some ((name, value) :: values)

end

mutual

/-- A value as a document. -/
def ofJson : Json → Document
  | .null => null
  | .bool value => bool value
  | .number value => number value
  | .string value => string value
  | .array items => list (ofItems items)
  | .object members => record (ofMembers members)

/-- The values of a list as documents. -/
def ofItems : List Json → List Document
  | [] => []
  | item :: items => ofJson item :: ofItems items

/-- The values of members as documents. -/
def ofMembers : List (String × Json) → List (String × Document)
  | [] => []
  | (name, value) :: members => (name, ofJson value) :: ofMembers members

end

/-- Parameters as a document. -/
def ofParams (params : Params) : Document :=
  record (ofMembers params.entries)

end Document

end Workflow
