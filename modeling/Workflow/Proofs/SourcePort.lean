import Workflow.Proofs.Reading

/-!
# Source ports of edges that are not read

The port that an edge leaves is looked at when the node that it leads to reads
the edge, and at no other time.  `Edge.seen` clears the port where nobody looks;
the stages of a compilation do the same with the edges of a graph and with what
is seen of them.
-/

namespace Workflow

open Lowering

/-- What the compiler sees of an edge. -/
def Edge.seen (nodes : List Node) (edge : Edge) : Edge :=
  if edge.isRead nodes then edge else { edge with sourceHandle := none }

def Wire.seen (wire : Wire) : Wire :=
  if wire.target.kind.reads wire.arrives then wire else { wire with leaves := .default }

namespace Edge

variable (nodes : List Node) (edge : Edge)

@[simp]
theorem seen_source : (edge.seen nodes).source = edge.source := by
  unfold seen
  split <;> rfl

@[simp]
theorem seen_target : (edge.seen nodes).target = edge.target := by
  unfold seen
  split <;> rfl

@[simp]
theorem seen_targetHandle : (edge.seen nodes).targetHandle = edge.targetHandle := by
  unfold seen
  split <;> rfl

end Edge

namespace Wire

variable (wire : Wire)

@[simp]
theorem seen_index : wire.seen.index = wire.index := by
  unfold seen
  split <;> rfl

@[simp]
theorem seen_source : wire.seen.source = wire.source := by
  unfold seen
  split <;> rfl

@[simp]
theorem seen_target : wire.seen.target = wire.target := by
  unfold seen
  split <;> rfl

@[simp]
theorem seen_arrives : wire.seen.arrives = wire.arrives := by
  unfold seen
  split <;> rfl

end Wire

namespace Wiring

variable {nodes : List Node} {edges others : List Edge}

theorem wire_seen (index : Nat) (edge : Edge) :
    wire nodes index (edge.seen nodes) = (wire nodes index edge).map Wire.seen := by
  simp only [wire, Edge.seen_source, Edge.seen_target, Edge.seen_targetHandle]
  cases resolve nodes edge.source index with
  | error problem => rfl
  | ok source =>
      cases found : resolve nodes edge.target index with
      | error problem => rfl
      | ok target =>
          by_cases same : source.id = target.id
          · simp only [bind, Except.bind, same, if_true]
            rfl
          · have reads : edge.isRead nodes = target.kind.reads (.ofHandle edge.targetHandle) := by
              simp [Edge.isRead, resolve_eq_ok.mp found]
            simp only [bind, Except.bind, same, if_false, Edge.seen, reads]
            split <;> simp [*, pure, Except.pure, Except.map, Wire.seen, SourcePort.ofHandle]

theorem wireAll_seen (index : Nat) (edges : List Edge) :
    wireAll nodes index (edges.map (Edge.seen nodes)) =
      (wireAll nodes index edges).map (List.map Wire.seen) := by
  induction edges generalizing index with
  | nil => rfl
  | cons edge edges induction =>
      simp only [List.map_cons, wireAll, wire_seen, induction]
      cases wire nodes index edge with
      | error problem => rfl
      | ok first => cases wireAll nodes (index + 1) edges <;> rfl

def seen (wiring : Wiring) : Wiring :=
  { wiring with wires := wiring.wires.map Wire.seen }

theorem build_seen (nodes : List Node) (edges : List Edge) :
    build nodes (edges.map (Edge.seen nodes)) = (build nodes edges).map seen := by
  unfold build
  cases repeatedId? nodes [] with
  | some id => rfl
  | none =>
      simp only [wireAll_seen]
      cases wireAll nodes 0 edges <;> rfl

variable (wiring : Wiring)

theorem incoming_seen (id : String) :
    wiring.seen.incoming id = (wiring.incoming id).map Wire.seen := by
  simp [incoming, seen, List.filter_map, Function.comp_def]

theorem rank?_seen (id : String) : wiring.seen.rank? id = wiring.rank? id := by
  simp [rank?, seen, List.find?_map, Function.comp_def, Wire.touches]

theorem pending_seen : wiring.seen.pending = wiring.pending := by
  simp only [pending, rank?_seen, incoming_seen, List.length_map]
  rfl

theorem release_seen (done : Node) (waiting : List Pending) :
    wiring.seen.release done waiting = wiring.release done waiting := by
  simp [release, seen, List.filter_map, List.countP_map, Function.comp_def]

theorem drain_seen (turns : Nat) (waiting : List Pending) :
    wiring.seen.drain turns waiting = wiring.drain turns waiting := by
  induction turns generalizing waiting with
  | zero => rfl
  | succ turns induction =>
      simp only [drain, release_seen, induction]

theorem order_seen : wiring.seen.order = wiring.order := by
  unfold order
  rw [pending_seen, drain_seen]
  rfl

theorem lower_seen (proper : wiring.Proper) {node : Node} (member : node ∈ wiring.nodes) :
    node.lower (wiring.seen.incoming node.id) = node.lower (wiring.incoming node.id) := by
  have ends : ∀ w ∈ wiring.incoming node.id, w.target = node := by
    intro w arriving
    simp only [incoming, List.mem_filter, decide_eq_true_eq] at arriving
    exact List.inj_on_of_nodup_map proper.distinct (proper.target_mem w arriving.1) member
      arriving.2
  have read : through node.kind.reads ((wiring.incoming node.id).map Wire.seen) =
      through node.kind.reads (wiring.incoming node.id) := by
    simp only [through, List.filter_map, Function.comp_def, Wire.seen_arrives]
    refine (List.map_congr_left ?_).trans (List.map_id _)
    intro w atPort
    obtain ⟨arriving, accepted⟩ := List.mem_filter.mp atPort
    simp [Wire.seen, ends w arriving, accepted]
  rw [incoming_seen, ← Node.lower_through, read, Node.lower_through]

end Wiring

namespace Compile

theorem named_seen (name : String) (nodes : List Node) (edges : List Edge) :
    named name nodes (edges.map (Edge.seen nodes)) = named name nodes edges := by
  unfold named
  rw [Wiring.build_seen]
  cases built : Wiring.build nodes edges with
  | error problem => rfl
  | ok wiring =>
      have proper := Wiring.build_proper built
      have sameAdd : ∀ progress, ∀ node ∈ nodes,
          add wiring.seen progress node = add wiring progress node := by
        intro progress node member
        have known : node ∈ wiring.nodes := by
          rwa [(Wiring.build_eq_ok.mp built).2.2]
        simp only [add, Wiring.lower_seen wiring proper known]
      simp only [Except.map, bind, Except.bind, Wiring.order_seen]
      cases ordered : wiring.order with
      | error problem => rfl
      | ok order =>
          have within : ∀ node ∈ order, node ∈ nodes := by
            intro node member
            exact (Wiring.order_perm built ordered).mem_iff.mp member
          have sameFold : order.foldlM (add wiring.seen) {} = order.foldlM (add wiring) {} := by
            apply Outcome.foldlM_congr
            intro progress node member
            exact sameAdd progress node (within node member)
          simp only [sameFold]

/-- An edge that is read leaves a port that its source offers. -/
theorem Course.offers {nodes : List Node} {edges : List Edge} {wiring : Wiring}
    {order : List Node} {compiled : Compiled}
    (course : Course nodes edges wiring order compiled) {edge : Edge} (member : edge ∈ edges)
    (read : edge.isRead nodes) {source : Node} (sourceMember : source ∈ nodes)
    (leaves : source.id = edge.source) : source.Offers (.ofHandle edge.sourceHandle) := by
  have offered : ∀ node ∈ nodes, Offered node.kind.reads (wiring.incoming node.id) := by
    intro node nodeMember
    have lowered := course.lowered node (course.perm.mem_iff.mpr nodeMember)
    exact ((Node.exists_lower node _).mp lowered).2.2
  obtain ⟨target, found, reads⟩ : ∃ target, Wiring.findNode? nodes edge.target = some target ∧
      target.kind.reads (.ofHandle edge.targetHandle) := by
    simpa [Edge.isRead, Option.any_eq_true] using read
  obtain ⟨targetMember, arrives⟩ := Wiring.mem_of_findNode? found
  exact (Wiring.offered_incoming course.built).mp offered edge member source sourceMember
    target targetMember leaves arrives reads

end Compile

/-- A graph compiles only if each edge that is read leaves a port that its source
offers.  The ports that other edges leave make no difference. -/
theorem compile_checks_read_edges (nodes : List Node) (edges : List Edge) :
    (∀ compiled, compile nodes edges = .ok compiled →
        ∀ edge ∈ edges, edge.isRead nodes → ∀ source ∈ nodes, source.id = edge.source →
          source.Offers (.ofHandle edge.sourceHandle)) ∧
      ∀ others, others.map (Edge.seen nodes) = edges.map (Edge.seen nodes) →
        compile nodes others = compile nodes edges := by
  constructor
  · intro compiled success edge member read source sourceMember leaves
    obtain ⟨-, wiring, order, course⟩ := Compile.named_eq_ok.mp success
    exact course.offers member read sourceMember leaves
  · intro others same
    unfold compile
    rw [← Compile.named_seen _ nodes others, same, Compile.named_seen]

/-- A graph compiles although one of its edges leaves a slot beyond the count. -/
theorem adrift_leaves_missing_slot :
    (∃ compiled, compile Graph.adrift.nodes Graph.adrift.edges = .ok compiled) ∧
      ∃ edge ∈ Graph.adrift.edges, ∃ source ∈ Graph.adrift.nodes, source.id = edge.source ∧
        ¬source.Offers (.ofHandle edge.sourceHandle) := by
  refine ⟨exists_compiled_adrift, Graph.adrift.edges[1], by decide, Graph.adrift.nodes[1],
    by decide, by decide, ?_⟩
  have port : SourcePort.ofHandle Graph.adrift.edges[1].sourceHandle = .slot 2 := by
    decide +kernel
  have slots : Graph.adrift.nodes[1].slots = 2 := by
    decide +kernel
  rw [port]
  intro offered
  have inRange : 2 < Graph.adrift.nodes[1].slots := offered
  rw [slots] at inRange
  exact Nat.lt_irrefl 2 inRange

end Workflow
