import Workflow.Compile.Error
import Workflow.Graph.Basic
import Workflow.Graph.Port

/-!
# Wiring

A wire is an edge whose two nodes and two ports are known.  `Wiring.build`
resolves the edges of a graph and refuses repeated ids, edges to nowhere and
edges from a node to itself.
-/

namespace Workflow

/-- An edge with its nodes and ports. -/
structure Wire where
  /-- The place of the edge among the edges of the graph. -/
  index : Nat
  source : Node
  target : Node
  leaves : SourcePort
  arrives : TargetPort
  deriving DecidableEq

/-- Whether a wire touches the node with an id. -/
def Wire.touches (wire : Wire) (id : String) : Bool :=
  wire.source.id = id || wire.target.id = id

/-- The nodes of a graph and its resolved edges, both in their order. -/
structure Wiring where
  nodes : List Node
  wires : List Wire

namespace Wiring

/-- The first id that occurs a second time. -/
def repeatedId? : List Node → List String → Option String
  | [], _ => none
  | node :: nodes, seen =>
      if seen.contains node.id then some node.id else repeatedId? nodes (node.id :: seen)

/-- The node with an id. -/
def findNode? (nodes : List Node) (id : String) : Option Node :=
  nodes.find? fun node => node.id = id

/-- The node that an edge names. -/
def resolve (nodes : List Node) (id : String) (index : Nat) : Except CompileError Node :=
  match findNode? nodes id with
  | some node => .ok node
  | none => .error (.unknownNode id index)

/-- The wire of an edge. -/
def wire (nodes : List Node) (index : Nat) (edge : Edge) : Except CompileError Wire := do
  let source ← resolve nodes edge.source index
  let target ← resolve nodes edge.target index
  if source.id = target.id then
    throw (.cycle [edge.source])
  else
    return {
      index, source, target
      leaves := .ofHandle edge.sourceHandle
      arrives := .ofHandle edge.targetHandle }

/-- The wires of a list of edges whose first one has the given index. -/
def wireAll (nodes : List Node) : Nat → List Edge → Except CompileError (List Wire)
  | _, [] => .ok []
  | index, edge :: edges => do
      let first ← wire nodes index edge
      let rest ← wireAll nodes (index + 1) edges
      return first :: rest

/-- The wiring of nodes and edges. -/
def build (nodes : List Node) (edges : List Edge) : Except CompileError Wiring :=
  match repeatedId? nodes [] with
  | some id => .error (.duplicateNode id)
  | none => (wireAll nodes 0 edges).map fun wires => ⟨nodes, wires⟩

/-- The wires that arrive at the node with an id, in the order of the edges. -/
def incoming (wiring : Wiring) (id : String) : List Wire :=
  wiring.wires.filter fun wire => wire.target.id = id

/-- The place of the first edge that touches the node with an id. -/
def rank? (wiring : Wiring) (id : String) : Option Nat :=
  (wiring.wires.find? fun wire => wire.touches id).map Wire.index

end Wiring

end Workflow
