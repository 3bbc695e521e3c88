import Workflow.Document.Basic

/-!
# Reading records by their fields

A record of known fields may be written as an object, in any order and with
unknown members beside them, or as the list of its fields in order.  A known
field occurs at most once, under one of its names.
-/

namespace Workflow

/-- A known field: its name and the other names it may be written under. -/
structure Field where
  name : String
  aliases : List String := []

namespace Field

/-- Whether a member with this name belongs to the field. -/
def goesBy (field : Field) (name : String) : Bool :=
  name = field.name || field.aliases.contains name

end Field

namespace Document

/-- The contents of a record's known fields, each under the field's own name. -/
abbrev Fields := List (String × Document)

/-- The contents of the known field among the members, provided that it does
not occur twice. -/
def gather (field : Field) (members : List (String × Document)) : Option Fields :=
  match members.filter fun entry => field.goesBy entry.1 with
  | [] => some []
  | [entry] => some [(field.name, entry.2)]
  | _ => none

/-- The contents of every known field among the members. -/
def gatherAll : List Field → List (String × Document) → Option Fields
  | [], _ => some []
  | field :: fields, members => do
      some ((← gather field members) ++ (← gatherAll fields members))

/-- The contents of the known fields of a record. -/
def fields? (known : List Field) : Document → Option Fields
  | record members => gatherAll known members
  | list items =>
      if items.length ≤ known.length then
        some ((known.map Field.name).zip items)
      else
        none
  | _ => none

/-- The text of a string. -/
def string? : Document → Option String
  | string value => some value
  | _ => none

/-- A truth value. -/
def bool? : Document → Option Bool
  | bool value => some value
  | _ => none

/-- An unsigned whole number. -/
def nat? : Document → Option Nat
  | number (.int value) =>
      if 0 ≤ value ∧ value < Text.naturalLimit then some value.toNat else none
  | _ => none

/-- A double; a whole number is rounded to one. -/
def double? : Document → Option Double
  | number value => value.toDouble?
  | _ => none

/-- The items of a list, each read in the same way. -/
def list? (read : Document → Option α) : Document → Option (List α)
  | list items => items.mapM read
  | _ => none

/-- The members of a record, each read in the same way; of two members of one
name the later counts. -/
def map? (read : Document → Option α) : Document → Option (KeyMap α)
  | record members =>
      (members.mapM fun entry => (read entry.2).map fun value => (entry.1, value)).map
        KeyMap.ofList
  | _ => none

/-- Parameters: an object whose values have at most the given number of
levels, the object itself counted. -/
def params? (levels : Nat) : Document → Option Params
  | record members => (membersToJson? (levels - 1) members).map KeyMap.ofList
  | _ => none

/-- A word of a fixed vocabulary: a string, or a record whose only member has
the word as its name and `null` as its content. -/
def word? (meaning : String → Option α) : Document → Option α
  | string value => meaning value
  | record [(name, null)] => meaning name
  | _ => none

namespace Fields

/-- A field that must be there. -/
def required (fields : Fields) (name : String) (read : Document → Option α) : Option α :=
  (fields.lookup name).bind read

/-- A field that may be missing or `null`. -/
def optional (fields : Fields) (name : String) (read : Document → Option α) :
    Option (Option α) :=
  match fields.lookup name with
  | none | some .null => some none
  | some content => (read content).map some

/-- A field that has a value where it is missing. -/
def withDefault (fields : Fields) (name : String) (read : Document → Option α)
    (value : α) : Option α :=
  match fields.lookup name with
  | none => some value
  | some content => read content

end Fields

/-- A member that is always written. -/
def member (name : String) (content : Document) : List (String × Document) :=
  [(name, content)]

/-- A member that is left out when there is no value. -/
def member? (name : String) (write : α → Document) : Option α → List (String × Document)
  | none => []
  | some value => [(name, write value)]

/-- A member that is left out when its list is empty. -/
def listMember (name : String) (write : α → Document) : List α → List (String × Document)
  | [] => []
  | items => [(name, list (items.map write))]

end Document

end Workflow
