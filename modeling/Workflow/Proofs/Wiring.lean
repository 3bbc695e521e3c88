import Mathlib.Data.List.Forall2
import Mathlib.Data.List.Nodup
import Workflow.Graph.Wiring
import Workflow.Proofs.Outcome

/-!
# What wiring establishes

Wiring succeeds exactly on nodes with distinct ids and edges that join two
different ones of them.  Its wires carry the edges one by one, and the nodes at
their ends are nodes of the graph.
-/

namespace Workflow

/-- An edge between two different nodes of a list. -/
structure Edge.Joins (nodes : List Node) (edge : Edge) : Prop where
  source : ∃ node ∈ nodes, node.id = edge.source
  target : ∃ node ∈ nodes, node.id = edge.target
  apart : edge.source ≠ edge.target

/-- A wire with the ends and the ports of an edge. -/
structure Wire.Carries (wire : Wire) (edge : Edge) : Prop where
  source : wire.source.id = edge.source
  target : wire.target.id = edge.target
  leaves : wire.leaves = .ofHandle edge.sourceHandle
  arrives : wire.arrives = .ofHandle edge.targetHandle

namespace Wiring

/-- Distinct nodes, and wires between two different ones of them. -/
structure Proper (wiring : Wiring) : Prop where
  distinct : (wiring.nodes.map Node.id).Nodup
  source_mem : ∀ wire ∈ wiring.wires, wire.source ∈ wiring.nodes
  target_mem : ∀ wire ∈ wiring.wires, wire.target ∈ wiring.nodes
  apart : ∀ wire ∈ wiring.wires, wire.source.id ≠ wire.target.id

variable {nodes : List Node} {edges : List Edge} {wiring : Wiring}

theorem repeatedId?_eq_none {seen : List String} :
    repeatedId? nodes seen = none ↔
      (nodes.map Node.id).Nodup ∧ ∀ node ∈ nodes, node.id ∉ seen := by
  induction nodes generalizing seen with
  | nil => simp [repeatedId?]
  | cons node nodes induction =>
      by_cases known : node.id ∈ seen
      · simp [repeatedId?, known]
      · simp only [repeatedId?, List.contains_eq_mem, known, decide_false, Bool.false_eq_true,
          if_false, induction, List.map_cons, List.nodup_cons, List.mem_map, List.mem_cons,
          forall_eq_or_imp, not_false_eq_true, true_and, not_or]
        grind

theorem mem_of_findNode? {id : String} {node : Node} (found : findNode? nodes id = some node) :
    node ∈ nodes ∧ node.id = id := by
  refine ⟨List.mem_of_find?_eq_some found, ?_⟩
  simpa using List.find?_some found

/-- With distinct ids, a node is found by its id and no other node is. -/
theorem findNode?_eq_some (distinct : (nodes.map Node.id).Nodup) {id : String} {node : Node} :
    findNode? nodes id = some node ↔ node ∈ nodes ∧ node.id = id := by
  constructor
  · exact mem_of_findNode?
  · intro conditions
    obtain ⟨member, rfl⟩ := conditions
    cases found : findNode? nodes node.id with
    | none =>
        have absent := List.find?_eq_none.mp found node member
        simp at absent
    | some other =>
        obtain ⟨otherMember, same⟩ := mem_of_findNode? found
        rw [List.inj_on_of_nodup_map distinct otherMember member same]

theorem findNode?_eq_none {id : String} :
    findNode? nodes id = none ↔ ∀ node ∈ nodes, node.id ≠ id := by
  simp [findNode?]

theorem resolve_eq_ok {id : String} {index : Nat} {node : Node} :
    resolve nodes id index = .ok node ↔ findNode? nodes id = some node := by
  unfold resolve
  cases findNode? nodes id <;> simp

theorem wire_eq_ok {index : Nat} {edge : Edge} {w : Wire} :
    wire nodes index edge = .ok w ↔
      findNode? nodes edge.source = some w.source ∧
        findNode? nodes edge.target = some w.target ∧ w.source.id ≠ w.target.id ∧
          w.index = index ∧ w.leaves = .ofHandle edge.sourceHandle ∧
            w.arrives = .ofHandle edge.targetHandle := by
  simp only [wire, Outcome.bind_eq_ok, resolve_eq_ok]
  constructor
  · intro success
    obtain ⟨source, sourceFound, target, targetFound, made⟩ := success
    by_cases same : source.id = target.id
    · simp [same] at made
    · simp only [same, if_false, Outcome.pure_eq_ok] at made
      subst made
      exact ⟨sourceFound, targetFound, same, rfl, rfl, rfl⟩
  · intro conditions
    obtain ⟨sourceFound, targetFound, different, rfl, leaves, arrives⟩ := conditions
    refine ⟨w.source, sourceFound, w.target, targetFound, ?_⟩
    simp [different, ← leaves, ← arrives]

theorem exists_wire (index : Nat) {edge : Edge} :
    (∃ w, wire nodes index edge = .ok w) ↔ edge.Joins nodes := by
  constructor
  · intro success
    obtain ⟨w, made⟩ := success
    obtain ⟨sourceFound, targetFound, different, -⟩ := wire_eq_ok.mp made
    obtain ⟨sourceMember, sourceId⟩ := mem_of_findNode? sourceFound
    obtain ⟨targetMember, targetId⟩ := mem_of_findNode? targetFound
    exact ⟨⟨_, sourceMember, sourceId⟩, ⟨_, targetMember, targetId⟩,
      sourceId ▸ targetId ▸ different⟩
  · intro joins
    have found : ∀ {id : String}, (∃ node ∈ nodes, node.id = id) →
        ∃ node, findNode? nodes id = some node := by
      rintro id ⟨node, member, same⟩
      refine Option.ne_none_iff_exists'.mp ?_
      intro missing
      exact findNode?_eq_none.mp missing node member same
    obtain ⟨source, sourceFound⟩ := found joins.source
    obtain ⟨target, targetFound⟩ := found joins.target
    have different : source.id ≠ target.id := by
      rw [(mem_of_findNode? sourceFound).2, (mem_of_findNode? targetFound).2]
      exact joins.apart
    exact ⟨⟨index, source, target, _, _⟩,
      wire_eq_ok.mpr ⟨sourceFound, targetFound, different, rfl, rfl, rfl⟩⟩

theorem exists_wireAll (index : Nat) :
    (∃ wires, wireAll nodes index edges = .ok wires) ↔ ∀ edge ∈ edges, edge.Joins nodes := by
  induction edges generalizing index with
  | nil => simp [wireAll]
  | cons edge edges induction =>
      rw [List.forall_mem_cons, ← induction (index + 1), ← exists_wire index]
      simp only [wireAll, Outcome.bind_eq_ok, Outcome.pure_eq_ok]
      constructor
      · intro success
        obtain ⟨_, first, firstMade, rest, restMade, rfl⟩ := success
        exact ⟨⟨first, firstMade⟩, rest, restMade⟩
      · intro conditions
        obtain ⟨⟨first, firstMade⟩, rest, restMade⟩ := conditions
        exact ⟨first :: rest, first, firstMade, rest, restMade, rfl⟩

theorem exists_mem_of_forall₂ {related : α → β → Prop} {lefts : List α} {rights : List β}
    (all : List.Forall₂ related lefts rights) {right : β} (member : right ∈ rights) :
    ∃ left ∈ lefts, related left right := by
  induction all with
  | nil => simp at member
  | cons head _ induction =>
      rcases List.mem_cons.mp member with rfl | inRest
      · exact ⟨_, List.mem_cons_self, head⟩
      · obtain ⟨left, leftMember, here⟩ := induction inRest
        exact ⟨left, List.mem_cons_of_mem _ leftMember, here⟩

/-- Each wire carries its edge, between different nodes of the graph. -/
theorem wireAll_carries {index : Nat} {wires : List Wire}
    (made : wireAll nodes index edges = .ok wires) :
    List.Forall₂ (fun edge w => w.Carries edge ∧ w.source ∈ nodes ∧ w.target ∈ nodes ∧
      w.source.id ≠ w.target.id) edges wires := by
  induction edges generalizing index wires with
  | nil =>
      simp only [wireAll, Except.ok.injEq] at made
      subst made
      exact .nil
  | cons edge edges induction =>
      simp only [wireAll, Outcome.bind_eq_ok, Outcome.pure_eq_ok] at made
      obtain ⟨first, firstMade, rest, restMade, rfl⟩ := made
      refine .cons ?_ (induction restMade)
      obtain ⟨sourceFound, targetFound, different, -, leaves, arrives⟩ := wire_eq_ok.mp firstMade
      obtain ⟨sourceMember, sourceId⟩ := mem_of_findNode? sourceFound
      obtain ⟨targetMember, targetId⟩ := mem_of_findNode? targetFound
      exact ⟨⟨sourceId, targetId, leaves, arrives⟩, sourceMember, targetMember, different⟩

theorem build_of_distinct (distinct : (nodes.map Node.id).Nodup) (edges : List Edge) :
    build nodes edges = (wireAll nodes 0 edges).map fun wires => ⟨nodes, wires⟩ := by
  have unrepeated := repeatedId?_eq_none.mpr ⟨distinct, fun _ _ => List.not_mem_nil⟩
  simp only [build, unrepeated]

theorem build_repeated (repeated : ¬(nodes.map Node.id).Nodup) (edges : List Edge) :
    ∃ id, build nodes edges = .error (.duplicateNode id) := by
  cases found : repeatedId? nodes [] with
  | none => exact absurd (repeatedId?_eq_none.mp found).1 repeated
  | some id => exact ⟨id, by simp [build, found]⟩

theorem build_eq_ok :
    build nodes edges = .ok wiring ↔
      (nodes.map Node.id).Nodup ∧ wireAll nodes 0 edges = .ok wiring.wires ∧
        wiring.nodes = nodes := by
  by_cases distinct : (nodes.map Node.id).Nodup
  · simp only [build_of_distinct distinct, Outcome.map_eq_ok, distinct, true_and]
    constructor
    · intro success
      obtain ⟨wires, made, rfl⟩ := success
      exact ⟨made, rfl⟩
    · intro conditions
      obtain ⟨made, rfl⟩ := conditions
      exact ⟨wiring.wires, made, rfl⟩
  · obtain ⟨id, refused⟩ := build_repeated distinct edges
    simp [refused, distinct]

theorem exists_build :
    (∃ wiring, build nodes edges = .ok wiring) ↔
      (nodes.map Node.id).Nodup ∧ ∀ edge ∈ edges, edge.Joins nodes := by
  rw [← exists_wireAll 0]
  simp only [build_eq_ok]
  constructor
  · intro success
    obtain ⟨wiring, distinct, made, -⟩ := success
    exact ⟨distinct, wiring.wires, made⟩
  · intro conditions
    obtain ⟨distinct, wires, made⟩ := conditions
    exact ⟨⟨nodes, wires⟩, distinct, made, rfl⟩

theorem build_nodes (built : build nodes edges = .ok wiring) : wiring.nodes = nodes :=
  (build_eq_ok.mp built).2.2

theorem build_carries (built : build nodes edges = .ok wiring) :
    List.Forall₂ (fun edge w => w.Carries edge) edges wiring.wires :=
  (wireAll_carries (build_eq_ok.mp built).2.1).imp fun _ _ carried => carried.1

theorem exists_edge (built : build nodes edges = .ok wiring) {wire : Wire}
    (member : wire ∈ wiring.wires) : ∃ edge ∈ edges, wire.Carries edge :=
  exists_mem_of_forall₂ (build_carries built) member

theorem exists_wire_of_edge (built : build nodes edges = .ok wiring) {edge : Edge}
    (member : edge ∈ edges) : ∃ wire ∈ wiring.wires, wire.Carries edge :=
  exists_mem_of_forall₂ (build_carries built).flip member

theorem build_proper (built : build nodes edges = .ok wiring) : wiring.Proper := by
  obtain ⟨distinct, made, rfl⟩ := build_eq_ok.mp built
  have ends : ∀ w ∈ wiring.wires, w.source ∈ wiring.nodes ∧ w.target ∈ wiring.nodes ∧
      w.source.id ≠ w.target.id := by
    intro w member
    obtain ⟨_, -, -, joined⟩ := exists_mem_of_forall₂ (wireAll_carries made) member
    exact joined
  exact {
    distinct
    source_mem := fun w member => (ends w member).1
    target_mem := fun w member => (ends w member).2.1
    apart := fun w member => (ends w member).2.2 }

end Wiring

end Workflow
