import Workflow.Base64
import Workflow.Document.Record
import Workflow.Value.Basic

/-!
# Documents of values

A value is written as a record of its type and its content.  The bytes of an
image are written in base64.
-/

namespace Workflow

namespace Image

def knownFields : List Field :=
  [⟨"id", []⟩, ⟨"mimeType", []⟩, ⟨"data", []⟩, ⟨"url", []⟩]

def ofDocument? (document : Document) : Option Image := do
  let fields ← document.fields? knownFields
  let id ← fields.optional "id" Document.string?
  let mimeType ← fields.optional "mimeType" Document.string?
  let data ← fields.withDefault "data" (fun content => content.string?.bind Base64.decode?) []
  let url ← fields.optional "url" Document.string?
  some { id, mimeType, data, url }

def toDocument (image : Image) : Document :=
  .record <|
    Document.member? "id" .string image.id ++
    Document.member? "mimeType" .string image.mimeType ++
    Document.member "data" (.string (Base64.encode image.data)) ++
    Document.member? "url" .string image.url

end Image

namespace Value

/-- Reads the text of a text value. -/
def text? (document : Document) : Option String := do
  let fields ← document.fields? [⟨"text", []⟩]
  fields.required "text" Document.string?

/-- The type of a value, if exactly one member gives it and exactly one member
gives a content. -/
def typeMember? (members : List (String × Document)) : Option String := do
  let fields ← Document.gatherAll [⟨"type", []⟩, ⟨"value", []⟩] members
  fields.required "type" (Document.word? some)

mutual

/-- Reads a value, a record or the list of a type and a content.  In a list the
type is a plain string. -/
def ofDocument? : Document → Option Value
  | .record members =>
      match typeMember? members with
      | some type => contentOf? type members
      | none => none
  | .list [.string type, content] => ofContent? type content
  | _ => none

/-- Reads the content of a value of a given type from its member. -/
def contentOf? (type : String) : List (String × Document) → Option Value
  | [] => none
  | (name, content) :: members =>
      if name = "value" then ofContent? type content else contentOf? type members

/-- Reads the content of a value of a given type. -/
def ofContent? (type : String) : Document → Option Value
  | .list items =>
      if type = "list" then
        (ofItems? items).map list
      else if type = "image" then
        (Image.ofDocument? (.list items)).map image
      else if type = "data" then
        (text? (.list items)).map data
      else
        none
  | content =>
      if type = "image" then (Image.ofDocument? content).map image
      else if type = "data" then (text? content).map data
      else none

/-- Reads a list of values. -/
def ofItems? : List Document → Option (List Value)
  | [] => some []
  | item :: items =>
      match ofDocument? item, ofItems? items with
      | some value, some values => some (value :: values)
      | _, _ => none

end

mutual

def toDocument : Value → Document
  | image value => .record [("type", .string "image"), ("value", value.toDocument)]
  | data text =>
      .record [("type", .string "data"), ("value", .record [("text", .string text)])]
  | list items => .record [("type", .string "list"), ("value", .list (toDocuments items))]

/-- Writes a list of values. -/
def toDocuments : List Value → List Document
  | [] => []
  | item :: items => toDocument item :: toDocuments items

end

end Value

end Workflow
