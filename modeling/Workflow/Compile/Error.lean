import Workflow.Text

/-!
# Defects of graphs

Compiling a graph stops at its first defect.
-/

namespace Workflow

/-- A defect of a graph. -/
inductive CompileError where
  /-- Nodes that wait for each other, or for such nodes. -/
  | cycle (nodes : List String)
  /-- A node lacks a connection, or has an impossible one. -/
  | missingConnection (node message : String)
  /-- A node lacks a parameter. -/
  | missingParam (node parameter : String)
  /-- A parameter of a node has a value that cannot be used. -/
  | invalidParam (node parameter reason : String)
  /-- Two nodes have one id. -/
  | duplicateNode (node : String)
  /-- The edge with this index names a node that does not exist. -/
  | unknownNode (node : String) (edge : Nat)
  /-- A port that takes one edge has several. -/
  | duplicatePort (node port : String)
  /-- A variable would be bound twice. -/
  | variableConflict (name node : String)
  deriving DecidableEq

namespace CompileError

def code : CompileError → String
  | cycle _ => "CYCLE_DETECTED"
  | missingConnection _ _ => "MISSING_CONNECTION"
  | missingParam _ _ => "MISSING_NODE_PARAM"
  | invalidParam _ _ _ => "INVALID_NODE_PARAM"
  | duplicateNode _ => "DUPLICATE_NODE_ID"
  | unknownNode _ _ => "UNKNOWN_NODE_REFERENCE"
  | duplicatePort _ _ => "DUPLICATE_PORT"
  | variableConflict _ _ => "VARIABLE_CONFLICT"

def message : CompileError → String
  | cycle nodes => "Cycle detected among nodes: " ++ Text.join ", " nodes
  | missingConnection node message => s!"{message} (node '{node}')"
  | missingParam node parameter =>
      s!"Node '{node}' is missing required parameter '{parameter}'"
  | invalidParam node parameter reason =>
      s!"Node '{node}' has invalid parameter '{parameter}': {reason}"
  | duplicateNode node => s!"Duplicate node id '{node}'"
  | unknownNode node edge => s!"Edge {edge} references unknown node '{node}'"
  | duplicatePort node port =>
      s!"Node '{node}' has more than one connection on port '{port}'"
  | variableConflict name node =>
      s!"Variable '{name}' produced by node '{node}' is already produced by another node"

/-- The node that a defect is attributed to. -/
def node? : CompileError → Option String
  | cycle nodes => nodes.head?
  | missingConnection node _ | missingParam node _ | invalidParam node _ _
  | duplicateNode node | unknownNode node _ | duplicatePort node _
  | variableConflict _ node => some node

/-- The parameter that a defect is about. -/
def parameter? : CompileError → Option String
  | missingParam _ parameter | invalidParam _ parameter _ => some parameter
  | _ => none

end CompileError

end Workflow
