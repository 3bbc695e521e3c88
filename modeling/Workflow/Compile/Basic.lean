import Workflow.Compile.Lowering
import Workflow.Graph.Order

/-!
# Compiling graphs

A graph is compiled by wiring it, ordering its nodes and turning each node into
its step.  No variable may be bound by two nodes.
-/

namespace Workflow

/-- A compiled graph: its pipeline, and the variable of each node that has
one. -/
structure Compiled where
  pipeline : Pipeline
  nodeVars : KeyMap String
  deriving DecidableEq

namespace Compile

/-- The name of a pipeline that nobody names. -/
def defaultName : String := "graph"

/-- What the nodes so far have been compiled to. -/
structure Progress where
  steps : List Step := []
  nodeVars : KeyMap String := ∅
  /-- The variables that are bound already. -/
  produced : List String := []

/-- Adds variables to those that are bound; none of them may be bound already. -/
def reserve (node : String) : List String → List String → Except CompileError (List String)
  | produced, [] => .ok produced
  | produced, name :: names =>
      if produced.contains name then
        .error (.variableConflict name node)
      else
        reserve node (name :: produced) names

/-- The variables that a node binds: those of its step, or its own as an
input. -/
def bound (node : Node) : Option Step → List String
  | some step => step.outputs
  | none => [node.id]

/-- Compiles one further node. -/
def add (wiring : Wiring) (progress : Progress) (node : Node) :
    Except CompileError Progress := do
  let step ← node.lower (wiring.incoming node.id)
  let produced ← reserve node.id progress.produced (bound node step)
  return {
    steps := progress.steps ++ step.toList
    nodeVars :=
      if node.kind.producesVariable then progress.nodeVars.insert node.id node.id
      else progress.nodeVars
    produced }

/-- Compiles nodes and edges to a pipeline with a name. -/
def named (name : String) (nodes : List Node) (edges : List Edge) :
    Except CompileError Compiled := do
  let wiring ← Wiring.build nodes edges
  let order ← wiring.order
  let progress ← order.foldlM (add wiring) {}
  return ⟨⟨name, progress.steps⟩, progress.nodeVars⟩

end Compile

/-- Compiles nodes and edges to a pipeline with the default name. -/
def compile (nodes : List Node) (edges : List Edge) : Except CompileError Compiled :=
  Compile.named Compile.defaultName nodes edges

/-- Compiles a graph; the pipeline is named after the graph, or by the given
name if the graph has none. -/
def Graph.compile (graph : Graph) (name : String := Compile.defaultName) :
    Except CompileError Compiled :=
  Compile.named (graph.name.getD name) graph.nodes graph.edges

end Workflow
