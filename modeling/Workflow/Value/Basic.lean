import Workflow.Document.Printer
import Workflow.Document.Reader
import Workflow.Json.Path

/-!
# Values

The values that a run binds to variables: images, texts and lists of values.
What a value says as text, and which images it holds, depends on its leaves
alone, taken from left to right.  A text may hold JSON, bare or inside a code
fence.
-/

namespace Workflow

/-- An encoded image, or a reference to one that is hosted elsewhere. -/
structure Image where
  /-- The stable name; a run gives one to an image without it. -/
  id : Option String := none
  /-- The MIME type; a run gives one to an image without it. -/
  mimeType : Option String := none
  /-- The encoded bytes. -/
  data : List UInt8 := []
  /-- Where the image is hosted. -/
  url : Option String := none
  deriving DecidableEq, Inhabited

/-- A value bound to a variable. -/
inductive Value where
  | image (image : Image)
  | data (text : String)
  | list (items : List Value)
  deriving Inhabited

namespace Structured

/-- The characters inside a code fence that opens at once.  The first line of
the fence is its label, unless there is no second line. -/
def stripFence (cs : List Char) : List Char :=
  match cs with
  | '\x60' :: '\x60' :: '\x60' :: rest =>
      let body := match rest.dropWhile (· ≠ '\n') with
        | [] => rest
        | _ :: after => after
      let content := match body.reverse with
        | '\x60' :: '\x60' :: '\x60' :: before => before.reverse
        | _ => body
      Text.trimChars content
  | _ => cs

/-- The JSON value that a text holds. -/
def ofText? (text : String) : Option Json :=
  Json.ofText? (String.ofList (stripFence (Text.trimChars text.toList)))

/-- The value at a dotted path of the JSON value that a text holds. -/
def field? (text path : String) : Option Json :=
  (ofText? text).bind fun value => value.lookup? path

/-- The text that holds a JSON value: a string is the text itself. -/
def text : Json → String
  | .string value => value
  | value => value.text

end Structured

namespace Value

/-- The text value that holds a JSON value. -/
def ofJson (value : Json) : Value :=
  data (Structured.text value)

mutual

/-- The decision whether two values are the same. -/
def decideEq : (a b : Value) → Decidable (a = b)
  | image a, image b =>
      if same : a = b then isTrue (by rw [same])
      else isFalse fun equal => same (by injection equal)
  | data a, data b =>
      if same : a = b then isTrue (by rw [same])
      else isFalse fun equal => same (by injection equal)
  | list a, list b =>
      match decideItemsEq a b with
      | isTrue same => isTrue (by rw [same])
      | isFalse different => isFalse fun equal => different (by injection equal)
  | image _, data _ | image _, list _ | data _, image _ | data _, list _ | list _, image _
  | list _, data _ => isFalse (by simp)

/-- The decision whether two lists of values are the same. -/
def decideItemsEq : (a b : List Value) → Decidable (a = b)
  | [], [] => isTrue rfl
  | [], _ :: _ => isFalse (by simp)
  | _ :: _, [] => isFalse (by simp)
  | a :: as, b :: bs =>
      match decideEq a b, decideItemsEq as bs with
      | isTrue head, isTrue tail => isTrue (by rw [head, tail])
      | isFalse different, _ => isFalse fun equal => different (by injection equal)
      | _, isFalse different => isFalse fun equal => different (by injection equal)

end

instance : DecidableEq Value := decideEq

/-- What a value is, for messages. -/
def typeName : Value → String
  | image _ => "an image"
  | data _ => "text data"
  | list _ => "a list"

/-- The image, if the value is one. -/
def image? : Value → Option Image
  | image value => some value
  | _ => none

mutual

/-- The text of a value: that of a text, or the lines of all texts in a list.
A value without a text has none. -/
def textContent? : Value → Option String
  | data text => some text
  | image _ => none
  | list items =>
      match itemTexts items with
      | [] => none
      | texts => some (Text.join "\n" texts)

/-- The texts of those items that have one. -/
def itemTexts : List Value → List String
  | [] => []
  | item :: items =>
      match textContent? item with
      | some text => text :: itemTexts items
      | none => itemTexts items

end

mutual

/-- The structured content of a value.  A list becomes an array, in which a
text without JSON stands as a string and an image as `null`. -/
def structured? : Value → Option Json
  | data text => Structured.ofText? text
  | image _ => none
  | list items => some (.array (structuredItems items))

/-- The structured contents of the items of a list. -/
def structuredItems : List Value → List Json
  | [] => []
  | data text :: items =>
      (Structured.ofText? text).getD (.string text) :: structuredItems items
  | item :: items => (structured? item).getD .null :: structuredItems items

end

mutual

/-- The images of a value from left to right. -/
def images : Value → List Image
  | image value => [value]
  | data _ => []
  | list items => itemImages items

/-- The images of a list's items from left to right. -/
def itemImages : List Value → List Image
  | [] => []
  | item :: items => images item ++ itemImages items

end

mutual

/-- Replaces the images of a value from left to right, with a state that
passes from one to the next. -/
def visitImages (visit : σ → Image → Image × σ) : σ → Value → Value × σ
  | state, image value =>
      let (value, state) := visit state value
      (image value, state)
  | state, data text => (data text, state)
  | state, list items =>
      let (items, state) := visitItemImages visit state items
      (list items, state)

/-- Replaces the images of a list's items from left to right. -/
def visitItemImages (visit : σ → Image → Image × σ) : σ → List Value → List Value × σ
  | state, [] => ([], state)
  | state, item :: items =>
      let (item, state) := visitImages visit state item
      let (items, state) := visitItemImages visit state items
      (item :: items, state)

end

/-- Replaces every image of a value. -/
def mapImages (replace : Image → Image) (value : Value) : Value :=
  (visitImages (fun (_ : Unit) image => (replace image, ())) () value).1

/-- Whether a value is the one that a selection names.  A text matches a JSON
value that it holds or that it spells; an image matches its own name. -/
def matchesSelection (value : Value) (target : Json) : Bool :=
  match value with
  | data text =>
      let held := match Structured.ofText? text with
        | some content => content.same target
        | none => false
      held || match target with
        | .string wanted => Text.trim text == Text.trim wanted
        | _ => Text.trim text == target.text
  | image value =>
      match value.id, target with
      | some id, .string wanted => id == wanted
      | _, _ => false
  | list _ => false

end Value

end Workflow
