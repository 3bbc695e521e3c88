import Workflow.Proofs.Unordered
import Workflow.Proofs.WellFormed

/-!
# Rearranged edges

The order in which a graph lists its edges decides which node has its turn first
and which defect is met first.  It does not decide whether the graph compiles, nor
what its nodes become, as long as reference images and the wires of a collector
that arrive at no slot keep their order.
-/

namespace Workflow

open Lowering

/-- Whether an edge arrives at an accepted port of the node with an id. -/
def Edge.arrivesAt (id : String) (accepts : TargetPort → Bool) (edge : Edge) : Bool :=
  edge.target = id && accepts (.ofHandle edge.targetHandle)

/-- The same edges, where those that bring reference images to one node follow
each other as before, and so do those that arrive at one collector but at no
slot. -/
structure Edge.Rearranged (nodes : List Node) (edges others : List Edge) : Prop where
  perm : edges.Perm others
  references : ∀ id, edges.filter (Edge.arrivesAt id (· = .references)) =
    others.filter (Edge.arrivesAt id (· = .references))
  collected : ∀ node ∈ nodes, node.kind = .collect →
    edges.filter (Edge.arrivesAt node.id fun port => !port.isSlot) =
      others.filter (Edge.arrivesAt node.id fun port => !port.isSlot)

variable {nodes : List Node} {edges others : List Edge}

theorem Edge.Rearranged.symm (rearranged : Edge.Rearranged nodes edges others) :
    Edge.Rearranged nodes others edges where
  perm := rearranged.perm.symm
  references id := (rearranged.references id).symm
  collected node member isCollect := (rearranged.collected node member isCollect).symm

theorem Edge.precedes_perm (permutation : edges.Perm others) :
    Edge.Precedes edges = Edge.Precedes others := by
  funext source target
  simp only [Edge.Precedes, permutation.mem_iff]

namespace Wiring

variable {wiring other : Wiring}

/-- The wire of an edge without its place, if the edge joins two nodes. -/
def unplaced? (nodes : List Node) (edge : Edge) : Option Wire :=
  (wire nodes 0 edge).toOption

theorem unplaced?_eq_some {index : Nat} {edge : Edge} {w : Wire}
    (made : wire nodes index edge = .ok w) : unplaced? nodes edge = some w.unplaced := by
  have first : wire nodes 0 edge = .ok w.unplaced := by
    obtain ⟨source, target, apart, -, leaves, arrives⟩ := wire_eq_ok.mp made
    exact wire_eq_ok.mpr ⟨source, target, apart, rfl, leaves, arrives⟩
  simp [unplaced?, first, Except.toOption]

theorem through_wireAll {index : Nat} {wires : List Wire}
    (made : wireAll nodes index edges = .ok wires) (id : String) (accepts : TargetPort → Bool) :
    through accepts ((wires.filter fun w => w.target.id = id).map Wire.unplaced) =
      (edges.filter (Edge.arrivesAt id accepts)).filterMap (unplaced? nodes) := by
  induction edges generalizing index wires with
  | nil =>
      simp only [wireAll, Except.ok.injEq] at made
      subst made
      rfl
  | cons edge edges induction =>
      simp only [wireAll, Outcome.bind_eq_ok, Outcome.pure_eq_ok] at made
      obtain ⟨first, firstMade, rest, restMade, rfl⟩ := made
      have later := induction restMade
      obtain ⟨-, targetFound, -, -, -, arrives⟩ := wire_eq_ok.mp firstMade
      have target : first.target.id = edge.target := (mem_of_findNode? targetFound).2
      have port : first.unplaced.arrives = .ofHandle edge.targetHandle := arrives
      by_cases here : edge.target = id
      · by_cases accepted : accepts (.ofHandle edge.targetHandle)
        · have atPort : Edge.arrivesAt id accepts edge := by simp [Edge.arrivesAt, here, accepted]
          simp only [List.filter_cons, target, here, decide_true, if_true, atPort, List.map_cons,
            List.filterMap_cons, unplaced?_eq_some firstMade, ← later]
          simp [through, port, accepted]
        · have elsewhere : ¬Edge.arrivesAt id accepts edge := by
            simp [Edge.arrivesAt, accepted]
          simp only [List.filter_cons, target, here, decide_true, if_true, elsewhere,
            List.map_cons, if_false, Bool.false_eq_true, ← later]
          simp [through, port, accepted]
      · have elsewhere : ¬Edge.arrivesAt id accepts edge := by simp [Edge.arrivesAt, here]
        simp only [List.filter_cons, target, here, decide_false, elsewhere, if_false,
          Bool.false_eq_true, later]

theorem through_incoming (built : build nodes edges = .ok wiring) (id : String)
    (accepts : TargetPort → Bool) :
    through accepts ((wiring.incoming id).map Wire.unplaced) =
      (edges.filter (Edge.arrivesAt id accepts)).filterMap (unplaced? nodes) :=
  through_wireAll (build_eq_ok.mp built).2.1 id accepts

theorem incoming_rearranged (rearranged : Edge.Rearranged nodes edges others)
    (built : build nodes edges = .ok wiring) (otherBuilt : build nodes others = .ok other)
    {node : Node} (member : node ∈ nodes) :
    Lowering.Rearranged node.kind ((wiring.incoming node.id).map Wire.unplaced)
      ((other.incoming node.id).map Wire.unplaced) where
  perm := by
    have all : ∀ wires, through (fun _ => true) wires = wires := fun wires => by simp [through]
    rw [← all ((wiring.incoming node.id).map _), ← all ((other.incoming node.id).map _),
      through_incoming built, through_incoming otherBuilt]
    exact (rearranged.perm.filter _).filterMap _
  references := by
    rw [through_incoming built, through_incoming otherBuilt, rearranged.references]
  collected isCollect := by
    rw [through_incoming built, through_incoming otherBuilt,
      rearranged.collected node member isCollect]

end Wiring

namespace Compile

variable {wiring other : Wiring} {order otherOrder : List Node} {compiled again : Compiled}

namespace Course

theorem lower_rearranged (course : Course nodes edges wiring order compiled)
    (rearranged : Edge.Rearranged nodes edges others)
    (otherBuilt : Wiring.build nodes others = .ok other) {node : Node} (member : node ∈ nodes) :
    node.lower (other.incoming node.id) = node.lower (wiring.incoming node.id) := by
  obtain ⟨step, lowered⟩ := course.lowered node (course.perm.mem_iff.mpr member)
  rw [lowered]
  exact Node.lower_rearranged
    (Wiring.incoming_rearranged rearranged course.built otherBuilt member) lowered

/-- The stages that succeed on a list of edges succeed on a rearranged one. -/
theorem exists_rearranged (course : Course nodes edges wiring order compiled)
    (rearranged : Edge.Rearranged nodes edges others) :
    ∃ other otherOrder, Wiring.build nodes others = .ok other ∧ other.order = .ok otherOrder ∧
      (∀ node ∈ otherOrder, ∃ step, node.lower (other.incoming node.id) = .ok step) ∧
        (otherOrder.flatMap Node.outputs).Nodup := by
  obtain ⟨distinct, joined⟩ := Wiring.exists_build.mp ⟨wiring, course.built⟩
  have otherJoined : ∀ edge ∈ others, edge.Joins nodes := by
    intro edge member
    exact joined edge (rearranged.perm.mem_iff.mpr member)
  obtain ⟨other, otherBuilt⟩ := Wiring.exists_build.mpr ⟨distinct, otherJoined⟩
  have acyclic : other.Acyclic := by
    have before := course.acyclic
    unfold Wiring.Acyclic at before ⊢
    rwa [Wiring.precedes_eq otherBuilt, ← Edge.precedes_perm rearranged.perm,
      ← Wiring.precedes_eq course.built]
  apply course.exists_alike otherBuilt acyclic
  intro node member
  exact course.lower_rearranged rearranged otherBuilt member

theorem steps_rearranged (course : Course nodes edges wiring order compiled)
    (otherCourse : Course nodes others other otherOrder again)
    (rearranged : Edge.Rearranged nodes edges others) :
    compiled.pipeline.steps.Perm again.pipeline.steps := by
  have same : ∀ node ∈ nodes,
      node.lower (other.incoming node.id) = node.lower (wiring.incoming node.id) := by
    intro node member
    exact course.lower_rearranged rearranged otherCourse.built member
  exact (course.alike otherCourse same).1

end Course

end Compile

/-- Rearranged edges compile exactly if the edges do, and then to the same steps
and the same variables of nodes; only the order of the steps may differ. -/
theorem compile_rearranged {nodes : List Node} {edges others : List Edge}
    (rearranged : Edge.Rearranged nodes edges others) :
    ((∃ compiled, compile nodes edges = .ok compiled) ↔
        ∃ compiled, compile nodes others = .ok compiled) ∧
      ∀ compiled again, compile nodes edges = .ok compiled → compile nodes others = .ok again →
        compiled.pipeline.steps.Perm again.pipeline.steps ∧ compiled.nodeVars = again.nodeVars := by
  have still : ∀ {edges others : List Edge}, Edge.Rearranged nodes edges others →
      (∃ compiled, compile nodes edges = .ok compiled) →
        ∃ compiled, compile nodes others = .ok compiled := by
    intro edges others rearranged success
    obtain ⟨compiled, made⟩ := success
    obtain ⟨-, wiring, order, course⟩ := Compile.named_eq_ok.mp made
    exact (Compile.exists_named _).mpr (course.exists_rearranged rearranged)
  constructor
  · exact ⟨still rearranged, still rearranged.symm⟩
  · intro compiled again made otherMade
    obtain ⟨-, wiring, order, course⟩ := Compile.named_eq_ok.mp made
    obtain ⟨-, other, otherOrder, otherCourse⟩ := Compile.named_eq_ok.mp otherMade
    refine ⟨course.steps_rearranged otherCourse rearranged, ?_⟩
    rw [course.nodeVars, otherCourse.nodeVars]
    exact Compile.nodeVars_perm ∅ (course.perm.trans otherCourse.perm.symm)

theorem sample_rearranged :
    ((∃ compiled, compile Graph.sample.nodes Graph.sample.edges = .ok compiled) ↔
        ∃ compiled, compile Graph.sample.nodes Graph.sample.edges.reverse = .ok compiled) ∧
      ∀ compiled again, compile Graph.sample.nodes Graph.sample.edges = .ok compiled →
        compile Graph.sample.nodes Graph.sample.edges.reverse = .ok again →
          compiled.pipeline.steps.Perm again.pipeline.steps ∧
            compiled.nodeVars = again.nodeVars := by
  apply compile_rearranged
  constructor
  · exact (List.reverse_perm Graph.sample.edges).symm
  · intro id
    have ports : ∀ edge ∈ Graph.sample.edges,
        TargetPort.ofHandle edge.targetHandle ≠ .references := by
      decide
    have elsewhere : ∀ edge ∈ Graph.sample.edges, ¬Edge.arrivesAt id (· = .references) edge := by
      intro edge member arrives
      simp only [Edge.arrivesAt, Bool.and_eq_true, decide_eq_true_eq] at arrives
      exact ports edge member arrives.2
    rw [List.filter_reverse, List.filter_eq_nil_iff.mpr elsewhere, List.reverse_nil]
  · decide

end Workflow
