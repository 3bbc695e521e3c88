import Workflow.Graph.Wiring

/-!
# The order of nodes

Nodes are ordered so that each one follows all nodes it depends on.  Among the
nodes that are ready, the one that the earliest edge touches comes first, and
among equals the one with the least id.  Nodes without edges come last.  The
order therefore depends on the edges and ids alone.
-/

namespace Workflow

/-- A node that waits for its turn. -/
structure Pending where
  node : Node
  /-- The place of the first edge that touches the node. -/
  rank : Option Nat
  /-- How many of the arriving wires come from nodes that also wait. -/
  unmet : Nat

namespace Pending

/-- Whether one place comes before another; a missing place comes last. -/
def rankBefore : Option Nat → Option Nat → Bool
  | some a, some b => a < b
  | some _, none => true
  | none, _ => false

/-- Whether a node has its turn before another when both are ready. -/
def before (a b : Pending) : Bool :=
  rankBefore a.rank b.rank || (a.rank = b.rank && a.node.id < b.node.id)

/-- The ready node whose turn comes first. -/
def next? : List Pending → Option Pending
  | [] => none
  | p :: rest =>
      if p.unmet ≠ 0 then
        next? rest
      else
        match next? rest with
        | some q => if q.before p then some q else some p
        | none => some p

end Pending

namespace Wiring

/-- The waiting nodes before the first turn. -/
def pending (wiring : Wiring) : List Pending :=
  wiring.nodes.map fun node =>
    { node, rank := wiring.rank? node.id, unmet := (wiring.incoming node.id).length }

/-- The nodes that still wait after a node had its turn; its wires no longer
hold them back. -/
def release (wiring : Wiring) (done : Node) (waiting : List Pending) : List Pending :=
  let leaving := wiring.wires.filter fun wire => wire.source.id = done.id
  (waiting.filter fun p => p.node.id ≠ done.id).map fun p =>
    { p with unmet := p.unmet - leaving.countP fun wire => wire.target.id = p.node.id }

/-- Gives ready nodes their turn, at most as many as the first argument says.
Returns the nodes in their order and those that still wait. -/
def drain (wiring : Wiring) : Nat → List Pending → List Node × List Pending
  | 0, waiting => ([], waiting)
  | turns + 1, waiting =>
      match Pending.next? waiting with
      | none => ([], waiting)
      | some p =>
          let (nodes, left) := drain wiring turns (wiring.release p.node waiting)
          (p.node :: nodes, left)

/-- The nodes in the order of their turns, or those that never have one. -/
def order (wiring : Wiring) : Except CompileError (List Node) :=
  match drain wiring wiring.nodes.length wiring.pending with
  | (nodes, []) => .ok nodes
  | (_, left) => .error (.cycle (left.map fun p => p.node.id))

end Wiring

end Workflow
