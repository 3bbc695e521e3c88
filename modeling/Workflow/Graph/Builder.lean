import Workflow.Graph.Basic

/-!
# Building graphs

Short ways to write graphs down: one for each kind of node, and one for each
form of an edge.
-/

namespace Workflow.Graph

/-- The graph with a name. -/
def named (graph : Graph) (name : String) : Graph :=
  { graph with name := some name }

/-- The graph with a further node. -/
def addNode (graph : Graph) (node : Node) : Graph :=
  { graph with nodes := graph.nodes ++ [node] }

/-- The graph with a further edge. -/
def addEdge (graph : Graph) (edge : Edge) : Graph :=
  { graph with edges := graph.edges ++ [edge] }

def input (graph : Graph) (id : String) : Graph :=
  graph.addNode { id, kind := .input }

/-- Adds a generator with a fixed prompt. -/
def generator (graph : Graph) (id provider prompt : String) : Graph :=
  graph.addNode <|
    ({ id, kind := .generator } : Node)
      |>.withParam "generator" (.string provider)
      |>.withParam "prompt" (.string prompt)

def transform (graph : Graph) (id operation : String) : Graph :=
  graph.addNode <| ({ id, kind := .transform } : Node).withParam "operation" (.string operation)

def vision (graph : Graph) (id provider : String) : Graph :=
  graph.addNode <| ({ id, kind := .vision } : Node).withParam "provider" (.string provider)

def textNode (graph : Graph) (id provider : String) : Graph :=
  graph.addNode <| ({ id, kind := .text } : Node).withParam "provider" (.string provider)

def save (graph : Graph) (id : String) : Graph :=
  graph.addNode { id, kind := .save }

/-- Adds a fan-out that repeats its input. -/
def fanOut (graph : Graph) (id : String) (count : Nat) : Graph :=
  graph.addNode <|
    ({ id, kind := .fanOut } : Node)
      |>.withParam "mode" (.string "count")
      |>.withParam "count" (.nat count)

def collect (graph : Graph) (id waitMode : String) : Graph :=
  graph.addNode <| ({ id, kind := .collect } : Node).withParam "waitMode" (.string waitMode)

/-- Adds a router that reads indices from a field of its selection. -/
def router (graph : Graph) (id selectionProperty : String) : Graph :=
  graph.addNode <|
    ({ id, kind := .router } : Node)
      |>.withParam "selectionType" (.string "index")
      |>.withParam "selectionProperty" (.string selectionProperty)

/-- Connects two default ports. -/
def edge (graph : Graph) (source target : String) : Graph :=
  graph.addEdge { source, target }

/-- Connects a default port to a named one. -/
def edgeTo (graph : Graph) (source target targetHandle : String) : Graph :=
  graph.addEdge { source, target, targetHandle := some targetHandle }

/-- Connects two named ports. -/
def edgeBetween (graph : Graph) (source sourceHandle target targetHandle : String) : Graph :=
  graph.addEdge {
    source, target, sourceHandle := some sourceHandle, targetHandle := some targetHandle }

end Workflow.Graph
