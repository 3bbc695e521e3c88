import Workflow.Run.Resolve

/-!
# Flow control

Fan-outs, collectors and routers are carried out without a provider.  Each
returns the bindings that its step makes, in their order.
-/

namespace Workflow

/-- The bindings that a step makes, in their order. -/
abbrev Bindings := List (String × Value)

namespace Flow

/-- The items of an array as values. -/
def arrayItems (scope : Scope) (name : String) : Json → Except RunError (List Value)
  | .array items => .ok (items.map Value.ofJson)
  | _ => .error (.unexpectedValue scope name "an array" "a non-array value")

/-- The items that a fan-out in array mode puts into its slots. -/
def elements (scope : Scope) (name : String) (value : Value) :
    Option String → Except RunError (List Value)
  | some property => do
      let content ← scope.structured name value
      let array ← scope.path name content property
      arrayItems scope name array
  | none =>
      match value with
      | .list items => .ok items
      | _ => do
          let content ← scope.structured name value
          arrayItems scope name content

/-- The values of the slots of a fan-out. -/
def slots (scope : Scope) (step : FanOutStep) (value : Value) : Except RunError (List Value) :=
  match step.mode with
  | .count => .ok (List.replicate step.count value)
  | .array => do
      let items ← elements scope step.input value step.arrayProperty
      if items.length = step.count then
        return items
      else
        throw (.lengthMismatch scope.index step.node (step.arrayProperty.getD "") step.count
          items.length)

/-- Binds the list of all slots and then each slot. -/
def fanOut (scope : Scope) (store : Store) (step : FanOutStep) : Except RunError Bindings := do
  let value ← scope.read store step.input
  let values ← slots scope step value
  return (step.node, .list values) :: step.out.zip values

/-- Binds the list of the inputs that are bound. -/
def collect (scope : Scope) (store : Store) (step : CollectStep) : Except RunError Bindings :=
  let missing := step.inputs.filter fun name => !store.contains name
  if step.waitMode = .all ∧ missing ≠ [] then
    .error (.collectIncomplete scope.index step.out missing)
  else
    .ok [(step.out, .list (step.inputs.filterMap store.get?))]

/-- The candidates that a value offers: the items of a list or of an array that
a text holds, else the value itself. -/
def candidates (value : Value) : List Value :=
  match value with
  | .list items => items
  | .data text =>
      match Structured.ofText? text with
      | some (.array items) => items.map Value.ofJson
      | _ => [value]
  | .image _ => [value]

/-- The selection of a router: a field of its selection variable, or all of it,
where a text without JSON is a string. -/
def selection (scope : Scope) (store : Store) (step : RouterStep) : Except RunError Json :=
  match step.selectionProperty with
  | some property => scope.field store step.selectionInput property
  | none => do
      let value ← scope.read store step.selectionInput
      match value.structured?.or (value.textContent?.map Json.string) with
      | some content => return content
      | none => throw (.unexpectedValue scope step.selectionInput "text data" value.typeName)

/-- The index that a selection names. -/
def index? : Json → Option Nat
  | .number value => value.natural?
  | .string value => Text.natural? (Text.trim value)
  | _ => none

/-- The candidates at a list of selected places, or why there are none. -/
def atPlaces (candidates : List Value) : List Nat → Except String (List Value)
  | [] => .ok []
  | place :: places =>
      match candidates[place]? with
      | some candidate => (atPlaces candidates places).map (candidate :: ·)
      | none => .error
          s!"index {place} is out of range for {candidates.length} candidate(s)"

/-- The places that the items of an array name. -/
def places : List Json → Except String (List Nat)
  | [] => .ok []
  | item :: items =>
      match index? item with
      | some place => (places items).map (place :: ·)
      | none => .error s!"selection {item.text} is not an index"

/-- The candidates that a selection of indices names.  An array names one
candidate with each item; a single index names as many neighbours as are
selected, all of which must be there. -/
def byIndex (candidates : List Value) (count : Nat) (selection : Json) :
    Except String (List Value) :=
  match selection with
  | .array items => do atPlaces candidates (← places (items.take count))
  | _ =>
      match index? selection with
      | none => .error s!"selection {selection.text} is not an index"
      | some start =>
          if start + count ≤ candidates.length then
            .ok ((candidates.drop start).take count)
          else
            .error (s!"indices {start}..{start}+{count} are out of range for " ++
              s!"{candidates.length} candidate(s)")

/-- The values that a selection asks for. -/
def targets : Json → List Json
  | .array items => items
  | selection => [selection]

/-- The first candidates that match a selection by value. -/
def byValue (candidates : List Value) (count : Nat) (selection : Json) : List Value :=
  (candidates.filter fun candidate =>
    (targets selection).any fun target => candidate.matchesSelection target).take count

/-- The candidates that a selection names. -/
def selected (step : RouterStep) (candidates : List Value) (selection : Json) :
    Except String (List Value) :=
  match step.selectionType with
  | .index => byIndex candidates step.outputCount selection
  | .value => .ok (byValue candidates step.outputCount selection)

/-- The value of the selected candidates: a router that selects one binds it as
such, any other binds a list. -/
def selectedValue (count : Nat) (values : List Value) : Value :=
  match count, values with
  | 1, [value] => value
  | _, _ => .list values

/-- The context that a router binds beside the selected candidates. -/
def context (scope : Scope) (store : Store) (step : RouterStep) : Except RunError Bindings :=
  match step.contextProperty, step.contextOut with
  | some property, some name =>
      (scope.field store step.selectionInput property).map fun content =>
        [(name, Value.ofJson content)]
  | _, _ => .ok []

/-- Binds the selected candidates, and the context if there is one. -/
def route (scope : Scope) (store : Store) (step : RouterStep) : Except RunError Bindings := do
  let value ← scope.read store step.input
  let selection ← selection scope store step
  match selected step (candidates value) selection with
  | .error reason => throw (.selection scope.index step.out reason)
  | .ok [] => throw (.selection scope.index step.out
      s!"no candidate matches selection {selection.text}")
  | .ok values =>
      let further ← context scope store step
      return (step.out, selectedValue step.outputCount values) :: further

end Flow

end Workflow
