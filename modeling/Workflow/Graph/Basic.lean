import Workflow.Json.Basic

/-!
# Graphs

A workflow graph: nodes with parameters, and edges between their ports.
-/

namespace Workflow

/-- What a node does. -/
inductive NodeKind where
  /-- Stands for a value that the caller supplies. -/
  | input
  /-- Generates an image. -/
  | generator
  /-- Transforms an image. -/
  | transform
  /-- Stores a value. -/
  | save
  /-- Describes an image. -/
  | vision
  /-- Writes a text. -/
  | text
  /-- Splits a value into slots. -/
  | fanOut
  /-- Joins values into a list. -/
  | collect
  /-- Selects among candidates. -/
  | router
  deriving DecidableEq

namespace NodeKind

def name : NodeKind → String
  | input => "input"
  | generator => "generator"
  | transform => "transform"
  | save => "save"
  | vision => "vision"
  | text => "text"
  | fanOut => "fan-out"
  | collect => "collect"
  | router => "router"

/-- Whether a node of the kind binds a variable named by its id. -/
def producesVariable : NodeKind → Bool
  | save => false
  | _ => true

end NodeKind

/-- A node of a graph. -/
structure Node where
  id : String
  kind : NodeKind
  parameters : Params := ∅
  deriving DecidableEq

namespace Node

/-- A parameter's value; a JSON `null` counts as absent. -/
def param? (node : Node) (name : String) : Option Json :=
  node.parameters.value? name

/-- A parameter's text without the blanks around it; a blank text counts as
absent. -/
def textParam? (node : Node) (name : String) : Option String :=
  match node.param? name with
  | some (.string value) =>
      let trimmed := Text.trim value
      if trimmed.isEmpty then none else some trimmed
  | _ => none

/-- The first name under which a parameter has a text, with that text. -/
def firstTextParam? (node : Node) : List String → Option (String × String)
  | [] => none
  | name :: names =>
      match node.textParam? name with
      | some value => some (name, value)
      | none => node.firstTextParam? names

/-- The node with a parameter set. -/
def withParam (node : Node) (name : String) (value : Json) : Node :=
  { node with parameters := node.parameters.insert name value }

end Node

/-- A connection from a port of one node to a port of another. -/
structure Edge where
  source : String
  target : String
  sourceHandle : Option String := none
  targetHandle : Option String := none
  deriving DecidableEq

/-- A graph with its nodes and edges in the order of the document. -/
structure Graph where
  name : Option String := none
  nodes : List Node := []
  edges : List Edge := []
  deriving DecidableEq

end Workflow
