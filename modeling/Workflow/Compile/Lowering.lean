import Workflow.Document.Printer
import Workflow.Graph.Wiring
import Workflow.Step.Basic

/-!
# Steps from nodes

Each node but an input becomes one step.  Its parameters name the provider and
settle the options of the step; its arriving wires name the variables that the
step reads.
-/

namespace Workflow.Lowering

/-- The greatest number of slots of a fan-out and of candidates that a router
selects. -/
def maxWidth : Nat := 1024

/-- Places an item before the first one whose key is not smaller. -/
def place (key : α → Nat) (item : α) : List α → List α
  | [] => [item]
  | other :: rest =>
      if key item ≤ key other then item :: other :: rest else other :: place key item rest

/-- The items in ascending order of their keys. -/
def ascending (key : α → Nat) (items : List α) : List α :=
  items.foldr (place key) []

/-- The variable of a slot of a fan-out. -/
def slotVariable (node : String) (slot : Nat) : String :=
  s!"{node}_{slot}"

/-- The variable of the context of a router. -/
def contextVariable (node : String) : String :=
  node ++ "_context"

/-- The text parameter under the first of two names that has one, with that
name; it is missed under the first name. -/
def requiredText (node : Node) (name : String) (names : List String) :
    Except CompileError (String × String) :=
  match node.firstTextParam? (name :: names) with
  | some found => .ok found
  | none => .error (.missingParam node.id name)

/-- The whole number that a parameter gives, as such or as a text. -/
def wholeNumber? : Json → Option Nat
  | .number value => value.natural?
  | .string value => Text.natural? (Text.trim value)
  | _ => none

/-- A parameter that counts something: between one and `maxWidth`, if there is
one. -/
def countParam? (node : Node) (name : String) : Except CompileError (Option Nat) :=
  match node.param? name with
  | none => .ok none
  | some value =>
      let refusal := CompileError.invalidParam node.id name
        s!"expected a positive integer up to {maxWidth}, got {value.text}"
      match wholeNumber? value with
      | some count => if 1 ≤ count ∧ count ≤ maxWidth then .ok (some count) else .error refusal
      | none => .error refusal

/-- The number of slots of a fan-out. -/
def slotCount (node : Node) : Except CompileError Nat := do
  match ← countParam? node "count" with
  | some count => return count
  | none => throw (.missingParam node.id "count")

/-- A parameter that is one of two words; without it the first word counts. -/
def choice (node : Node) (name : String) (first second : String × α) : Except CompileError α :=
  match node.textParam? name with
  | none => .ok first.2
  | some word =>
      if word = first.1 then .ok first.2
      else if word = second.1 then .ok second.2
      else .error (.invalidParam node.id name
        s!"expected '{first.1}' or '{second.1}', got '{word}'")

/-- The parameters under all other names. -/
def without (node : Node) (names : List String) : Params :=
  node.parameters.filter fun name _ => !names.contains name

/-- The variable that a wire reads. -/
def sourceVariable (wire : Wire) : Except CompileError String :=
  let source := wire.source
  match source.kind, wire.leaves with
  | .save, _ => .error (.missingConnection wire.target.id
      s!"Node '{source.id}' is a save node and has no output to connect")
  | .fanOut, .slot slot => do
      let count ← slotCount source
      if slot < count then
        return slotVariable source.id slot
      else
        throw (.invalidParam source.id "count"
          s!"slot out[{slot}] is out of range for {count} slot(s)")
  | .router, .context =>
      match source.textParam? "contextProperty" with
      | some _ => .ok (contextVariable source.id)
      | none => .error (.missingParam source.id "contextProperty")
  | _, _ => .ok source.id

/-- The variable of the only wire that arrives at one of the accepted ports,
if there is one. -/
def singleInput? (node : Node) (arriving : List Wire) (accepts : TargetPort → Bool)
    (port : String) : Except CompileError (Option String) :=
  match arriving.filter fun wire => accepts wire.arrives with
  | [] => .ok none
  | [wire] => (sourceVariable wire).map some
  | _ => .error (.duplicatePort node.id port)

/-- The variable of the only wire that arrives at one of the accepted ports. -/
def singleInput (node : Node) (arriving : List Wire) (accepts : TargetPort → Bool)
    (port message : String) : Except CompileError String := do
  match ← singleInput? node arriving accepts port with
  | some name => return name
  | none => throw (.missingConnection node.id message)

/-- The references of the wires so far and those of one further wire. -/
def addReference (node : Node) (deferred : Deferred) (wire : Wire) :
    Except CompileError Deferred :=
  match wire.arrives with
  | .text =>
      if deferred.prompt.isSome then
        .error (.duplicatePort node.id "text")
      else do
        let name ← sourceVariable wire
        return { deferred with prompt := some { name, field := wire.leaves.field? } }
  | .references => do
      let name ← sourceVariable wire
      return { deferred with
        references := deferred.references ++ [⟨name, deferred.references.length⟩] }
  | .overlay index =>
      if deferred.overlays.any fun overlay => overlay.index = index then
        .error (.duplicatePort node.id s!"overlays[{index}]")
      else do
        let name ← sourceVariable wire
        return { deferred with overlays := deferred.overlays ++ [⟨name, index⟩] }
  | _ => .ok deferred

/-- The references of a node's wires, with the overlays in ascending order. -/
def references (node : Node) (arriving : List Wire) : Except CompileError Deferred := do
  let deferred ← arriving.foldlM (addReference node) {}
  return { deferred with overlays := ascending ImageRef.index deferred.overlays }

def generate (node : Node) (arriving : List Wire) : Except CompileError Step := do
  let (name, generator) ← requiredText node "generator" ["provider"]
  let deferred ← references node arriving
  return .generate { generator, params := without node [name], deferred, out := node.id }

def transform (node : Node) (arriving : List Wire) : Except CompileError Step := do
  let (name, operation) ← requiredText node "operation" ["op"]
  let input ← singleInput node arriving TargetPort.isPrimaryImage "image"
    "Transform node requires an input image connection"
  let deferred ← references node arriving
  return .transform { operation, input, params := without node [name], deferred, out := node.id }

def save (node : Node) (arriving : List Wire) : Except CompileError Step := do
  let input ← singleInput node arriving (fun _ => true) "in"
    "Save node requires an input connection"
  return .save {
    node := node.id
    input
    destination := (node.textParam? "destination").getD "gallery"
    provider := (node.textParam? "provider").getD "local"
    params := without node ["destination", "provider"] }

/-- The image and the context of a vision node; a lone context is the image. -/
def visionInputs (node : Node) :
    Option String → Option String → Except CompileError (String × Option String)
  | some image, context => .ok (image, context)
  | none, some context => .ok (context, none)
  | none, none => .error (.missingConnection node.id
      "Vision node requires an input image connection")

def vision (node : Node) (arriving : List Wire) : Except CompileError Step := do
  let (name, provider) ← requiredText node "provider" []
  let image ← singleInput? node arriving TargetPort.isPrimaryImage "image"
  let context ← singleInput? node arriving (fun port => port = .context) "context"
  let (input, context) ← visionInputs node image context
  let deferred ← references node arriving
  return .vision {
    provider, input, context, params := without node [name], deferred, out := node.id }

def text (node : Node) (arriving : List Wire) : Except CompileError Step := do
  let (name, provider) ← requiredText node "provider" []
  let input ← singleInput? node arriving (fun port => port = .context || port = .default)
    "context"
  let deferred ← references node arriving
  return .text { provider, input, params := without node [name], deferred, out := node.id }

/-- The field that a fan-out reads its array from. -/
def arrayProperty? (node : Node) (mode : FanOutMode) : Except CompileError (Option String) :=
  match mode with
  | .count => .ok none
  | .array =>
      match node.firstTextParam? ["arrayProperty", "array_property"] with
      | some (_, property) => .ok (some property)
      | none => .error (.missingParam node.id "arrayProperty")

def fanOut (node : Node) (arriving : List Wire) : Except CompileError Step := do
  let input ← singleInput node arriving (fun _ => true) "in"
    "Fan-out node requires an input connection"
  let mode ← choice node "mode" ("count", FanOutMode.count) ("array", FanOutMode.array)
  let count ← slotCount node
  let arrayProperty ← arrayProperty? node mode
  return .fanOut {
    node := node.id
    input, mode, count, arrayProperty
    out := (List.range count).map (slotVariable node.id) }

/-- The variables that a collector joins: those with a slot, and the others. -/
structure Gathered where
  slotted : List (Nat × String) := []
  others : List String := []

/-- The variables of the wires so far and that of one further wire. -/
def gather (node : Node) (gathered : Gathered) (wire : Wire) : Except CompileError Gathered := do
  let name ← sourceVariable wire
  match wire.arrives with
  | .slot slot =>
      if gathered.slotted.any fun entry => entry.1 = slot then
        throw (.duplicatePort node.id s!"in[{slot}]")
      else
        return { gathered with slotted := gathered.slotted ++ [(slot, name)] }
  | _ => return { gathered with others := gathered.others ++ [name] }

/-- The joined variables: those with a slot in ascending order of slot, then
the others. -/
def Gathered.inputs (gathered : Gathered) : List String :=
  (ascending Prod.fst gathered.slotted).map Prod.snd ++ gathered.others

def collect (node : Node) (arriving : List Wire) : Except CompileError Step := do
  let gathered ← arriving.foldlM (gather node) {}
  if arriving.isEmpty then
    throw (.missingConnection node.id "Collect node requires at least one input connection")
  else
    let waitMode ← choice node "waitMode" ("all", WaitMode.all) ("available", WaitMode.available)
    return .collect { inputs := gathered.inputs, waitMode, out := node.id }

def router (node : Node) (arriving : List Wire) : Except CompileError Step := do
  let input ← singleInput node arriving (fun port => port = .candidates) "candidates"
    "Router node requires a candidates connection"
  let selectionInput ← singleInput node arriving (fun port => port = .selection) "selection"
    "Router node requires a selection connection"
  let selectionType ← choice node "selectionType" ("index", SelectionType.index)
    ("value", SelectionType.value)
  let outputCount ← countParam? node "outputCount"
  let contextProperty := node.textParam? "contextProperty"
  return .router {
    input, selectionInput, selectionType
    selectionProperty := node.textParam? "selectionProperty"
    outputCount := outputCount.getD 1
    contextProperty
    out := node.id
    contextOut := contextProperty.map fun _ => contextVariable node.id }

end Workflow.Lowering

namespace Workflow

/-- The step of a node with its arriving wires; an input has none. -/
def Node.lower (node : Node) (arriving : List Wire) : Except CompileError (Option Step) :=
  match node.kind with
  | .input => .ok none
  | .generator => (Lowering.generate node arriving).map some
  | .transform => (Lowering.transform node arriving).map some
  | .save => (Lowering.save node arriving).map some
  | .vision => (Lowering.vision node arriving).map some
  | .text => (Lowering.text node arriving).map some
  | .fanOut => (Lowering.fanOut node arriving).map some
  | .collect => (Lowering.collect node arriving).map some
  | .router => (Lowering.router node arriving).map some

end Workflow
