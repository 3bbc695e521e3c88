import Workflow.Proofs.Compilation

/-!
# Well-formed graphs

`WellFormed` says of nodes and edges alone, without wires or an order, what a
graph must be like to be compiled.  The compiler accepts exactly these graphs.
-/

namespace Workflow

namespace Edge

/-- An edge leads from one node to another. -/
def Precedes (edges : List Edge) (source target : String) : Prop :=
  ∃ edge ∈ edges, edge.source = source ∧ edge.target = target

/-- The ports at which edges arrive at the node with an id. -/
def portsAt (edges : List Edge) (id : String) : List TargetPort :=
  (edges.filter fun edge => edge.target = id).map fun edge => .ofHandle edge.targetHandle

end Edge

/-- What a graph must be like to be compiled. -/
structure WellFormed (nodes : List Node) (edges : List Edge) : Prop where
  distinct : (nodes.map Node.id).Nodup
  joined : ∀ edge ∈ edges, edge.Joins nodes
  acyclic : ∀ id, ¬Relation.TransGen (Edge.Precedes edges) id id
  usable : ∀ node ∈ nodes, node.Usable
  connected : ∀ node ∈ nodes, node.kind.Connected (Edge.portsAt edges node.id)
  /-- Where the target reads an edge, its source offers the port it leaves. -/
  offered : ∀ edge ∈ edges, ∀ source ∈ nodes, ∀ target ∈ nodes,
    source.id = edge.source → target.id = edge.target →
      target.kind.reads (.ofHandle edge.targetHandle) →
        source.Offers (.ofHandle edge.sourceHandle)
  /-- No variable is bound twice, by one node or by two. -/
  separate : (nodes.flatMap Node.outputs).Nodup

namespace Wiring

variable {nodes : List Node} {edges : List Edge} {wiring : Wiring}

theorem precedes_eq (built : build nodes edges = .ok wiring) :
    wiring.Precedes = Edge.Precedes edges := by
  funext source target
  apply propext
  constructor
  · intro precedes
    obtain ⟨wire, member, rfl, rfl⟩ := precedes
    obtain ⟨edge, edgeMember, carries⟩ := exists_edge built member
    exact ⟨edge, edgeMember, carries.source.symm, carries.target.symm⟩
  · intro precedes
    obtain ⟨edge, member, rfl, rfl⟩ := precedes
    obtain ⟨wire, wireMember, carries⟩ := exists_wire_of_edge built member
    exact ⟨wire, wireMember, carries.source, carries.target⟩

theorem arrives_incoming (built : build nodes edges = .ok wiring) (id : String) :
    (wiring.incoming id).map Wire.arrives = Edge.portsAt edges id := by
  have carried := build_carries built
  unfold incoming Edge.portsAt
  generalize wiring.wires = wires at carried
  clear built
  induction carried with
  | nil => rfl
  | @cons edge wire _ _ carries _ induction =>
      by_cases here : edge.target = id
      · simp [carries.target, carries.arrives, here, induction]
      · simp [carries.target, here, induction]

theorem offered_incoming (built : build nodes edges = .ok wiring) :
    (∀ node ∈ nodes, Lowering.Offered node.kind.reads (wiring.incoming node.id)) ↔
      ∀ edge ∈ edges, ∀ source ∈ nodes, ∀ target ∈ nodes,
        source.id = edge.source → target.id = edge.target →
          target.kind.reads (.ofHandle edge.targetHandle) →
            source.Offers (.ofHandle edge.sourceHandle) := by
  have proper := build_proper built
  rw [← build_nodes built]
  constructor
  · intro offered edge edgeMember source sourceMember target targetMember leaves arrives reads
    obtain ⟨wire, member, carries⟩ := exists_wire_of_edge built edgeMember
    obtain rfl : wire.source = source :=
      List.inj_on_of_nodup_map proper.distinct (proper.source_mem wire member) sourceMember
        (carries.source.trans leaves.symm)
    have atTarget : wire ∈ wiring.incoming target.id :=
      List.mem_filter.mpr ⟨member, by simp [carries.target, arrives]⟩
    rw [← carries.leaves]
    apply offered target targetMember wire
    exact Lowering.mem_through.mpr ⟨atTarget, by rw [carries.arrives]; exact reads⟩
  · intro offered node nodeMember wire atPort
    obtain ⟨arriving, reads⟩ := Lowering.mem_through.mp atPort
    obtain ⟨member, arrives⟩ := List.mem_filter.mp arriving
    obtain ⟨edge, edgeMember, carries⟩ := exists_edge built member
    have atNode : node.id = edge.target := by
      rw [← carries.target]
      exact (of_decide_eq_true arrives).symm
    rw [carries.leaves]
    apply offered edge edgeMember wire.source (proper.source_mem wire member) node nodeMember
      carries.source atNode
    rw [← carries.arrives]
    exact reads

end Wiring

/-- The compiler accepts exactly the well-formed graphs. -/
theorem compile_succeeds_iff_wellFormed (nodes : List Node) (edges : List Edge) :
    (∃ compiled, compile nodes edges = .ok compiled) ↔ WellFormed nodes edges := by
  unfold compile
  rw [Compile.exists_named]
  constructor
  · intro success
    obtain ⟨wiring, order, built, ordered, lowered, distinct⟩ := success
    have proper := Wiring.build_proper built
    have perm := Wiring.order_perm built ordered
    have accepted : ∀ node ∈ nodes, node.Usable ∧ node.kind.Connected (Edge.portsAt edges node.id) ∧
        Lowering.Offered node.kind.reads (wiring.incoming node.id) := by
      intro node member
      rw [← Wiring.arrives_incoming built, ← Node.exists_lower]
      exact lowered node (perm.mem_iff.mpr member)
    have acyclic := (Wiring.exists_order proper).mp ⟨order, ordered⟩
    unfold Wiring.Acyclic at acyclic
    rw [Wiring.precedes_eq built] at acyclic
    obtain ⟨nodesDistinct, joined⟩ := Wiring.exists_build.mp ⟨wiring, built⟩
    exact {
      distinct := nodesDistinct
      joined
      acyclic
      usable := fun node member => (accepted node member).1
      connected := fun node member => (accepted node member).2.1
      offered := (Wiring.offered_incoming built).mp fun node member => (accepted node member).2.2
      separate := (perm.flatMap_right Node.outputs).nodup_iff.mp distinct }
  · intro formed
    obtain ⟨wiring, built⟩ := Wiring.exists_build.mpr ⟨formed.distinct, formed.joined⟩
    have proper := Wiring.build_proper built
    have acyclic : wiring.Acyclic := by
      unfold Wiring.Acyclic
      rw [Wiring.precedes_eq built]
      exact formed.acyclic
    obtain ⟨order, ordered⟩ := (Wiring.exists_order proper).mpr acyclic
    have perm := Wiring.order_perm built ordered
    refine ⟨wiring, order, built, ordered, ?_, ?_⟩
    · intro node member
      have inGraph := perm.mem_iff.mp member
      rw [Node.exists_lower, Wiring.arrives_incoming built]
      exact ⟨formed.usable node inGraph, formed.connected node inGraph,
        (Wiring.offered_incoming built).mpr formed.offered node inGraph⟩
    · exact (perm.flatMap_right Node.outputs).nodup_iff.mpr formed.separate

end Workflow
