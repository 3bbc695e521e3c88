import Workflow.Proofs.Rearrangement

/-!
# What nodes read

A node reads the edges at the ports of its kind.  Its step reads one variable for
each of them, and has nothing of any other edge: such an edge only makes the node
come after its source.
-/

namespace Workflow

open Lowering

namespace Lowering

variable {node : Node} {arriving : List Wire} {accepts reads : TargetPort → Bool}

theorem through_through (within : ∀ port, accepts port → reads port) (arriving : List Wire) :
    through accepts (through reads arriving) = through accepts arriving := by
  unfold through
  rw [List.filter_filter]
  apply List.filter_congr
  intro wire _
  cases accepted : accepts wire.arrives with
  | false => rfl
  | true => exact within wire.arrives accepted

theorem singleInput?_through (within : ∀ port, accepts port → reads port) (port : String) :
    singleInput? node (through reads arriving) accepts port =
      singleInput? node arriving accepts port := by
  have same := through_through within arriving
  simp only [through] at same
  simp only [singleInput?, through, same]

theorem singleInput_through (within : ∀ port, accepts port → reads port)
    (port message : String) :
    singleInput node (through reads arriving) accepts port message =
      singleInput node arriving accepts port message := by
  simp only [singleInput, singleInput?_through within]

theorem addReference_of_unread {wire : Wire} (unread : ¬wire.arrives.isReference)
    (deferred : Deferred) : addReference node deferred wire = .ok deferred := by
  unfold addReference
  split <;> simp_all [TargetPort.isReference]

theorem references_through (within : ∀ port, TargetPort.isReference port → reads port) :
    references node (through reads arriving) = references node arriving := by
  have idle : ∀ deferred wire, ¬reads wire.arrives →
      addReference node deferred wire = .ok deferred := by
    intro deferred wire unread
    apply addReference_of_unread
    intro isReference
    exact unread (within wire.arrives isReference)
  unfold references
  rw [through, Outcome.foldlM_filter idle]

theorem through_all (arriving : List Wire) : through (fun _ => true) arriving = arriving := by
  simp [through]

end Lowering

/-- What becomes of a node depends on the wires that it reads. -/
theorem Node.lower_through (node : Node) (arriving : List Wire) :
    node.lower (through node.kind.reads arriving) = node.lower arriving := by
  unfold Node.lower
  cases node.kind with
  | input => rfl
  | save | fanOut | collect => rw [NodeKind.reads, through_all]
  | generator =>
      have reference : ∀ port, TargetPort.isReference port → NodeKind.reads .generator port :=
        fun _ accepted => accepted
      simp only [generate, references_through reference]
  | transform =>
      have image : ∀ port, TargetPort.isPrimaryImage port → NodeKind.reads .transform port := by
        simp +contextual [NodeKind.reads]
      have reference : ∀ port, TargetPort.isReference port → NodeKind.reads .transform port := by
        simp +contextual [NodeKind.reads]
      simp only [transform, singleInput_through image, references_through reference]
  | vision =>
      have image : ∀ port, TargetPort.isPrimaryImage port → NodeKind.reads .vision port := by
        simp +contextual [NodeKind.reads]
      have context : ∀ port, decide (port = TargetPort.context) → NodeKind.reads .vision port := by
        simp [NodeKind.reads]
      have reference : ∀ port, TargetPort.isReference port → NodeKind.reads .vision port := by
        simp +contextual [NodeKind.reads]
      simp only [vision, singleInput?_through image, singleInput?_through context,
        references_through reference]
  | text =>
      have context : ∀ port, decide (port = TargetPort.context) || decide (port = .default) →
          NodeKind.reads .text port := by
        simp [NodeKind.reads, or_imp, forall_and]
      have reference : ∀ port, TargetPort.isReference port → NodeKind.reads .text port := by
        simp +contextual [NodeKind.reads]
      simp only [text, singleInput?_through context, references_through reference]
  | router =>
      have candidates : ∀ port, decide (port = TargetPort.candidates) →
          NodeKind.reads .router port := by
        simp [NodeKind.reads]
      have selection : ∀ port, decide (port = TargetPort.selection) →
          NodeKind.reads .router port := by
        simp [NodeKind.reads]
      simp only [router, singleInput_through candidates, singleInput_through selection]

/-- The variable that an edge reads. -/
def Edge.variable (nodes : List Node) (edge : Edge) : String :=
  match (Wiring.findNode? nodes edge.source).map Node.kind, SourcePort.ofHandle edge.sourceHandle with
  | some .fanOut, .slot slot => slotVariable edge.source slot
  | some .router, .context => contextVariable edge.source
  | _, _ => edge.source

/-- Whether the node that an edge leads to reads it. -/
def Edge.isRead (nodes : List Node) (edge : Edge) : Bool :=
  (Wiring.findNode? nodes edge.target).any fun target =>
    target.kind.reads (.ofHandle edge.targetHandle)

namespace Wiring

variable {nodes : List Node} {edges others : List Edge} {wiring other : Wiring}

theorem variable_of_wire {index : Nat} {edge : Edge} {w : Wire}
    (made : wire nodes index edge = .ok w) : w.variable = edge.variable nodes := by
  obtain ⟨found, -, -, -, leaves, -⟩ := wire_eq_ok.mp made
  have source : w.source.id = edge.source := (mem_of_findNode? found).2
  simp only [Wire.variable, Edge.variable, found, Option.map_some, leaves, source]
  cases w.source.kind <;> cases SourcePort.ofHandle edge.sourceHandle <;> rfl

/-- What does not depend on the place of an edge is the same for the wires at some
ports of a node and for the edges at these ports. -/
theorem map_incoming (built : build nodes edges = .ok wiring) (id : String)
    (accepts : TargetPort → Bool) {ofWire : Wire → α} {ofEdge : Edge → α}
    (unplaced : ∀ w : Wire, ofWire w.unplaced = ofWire w)
    (same : ∀ index edge w, wire nodes index edge = .ok w → ofWire w = ofEdge edge) :
    (through accepts (wiring.incoming id)).map ofWire =
      (edges.filter (Edge.arrivesAt id accepts)).map ofEdge := by
  have whole : (through accepts ((wiring.incoming id).map Wire.unplaced)).map ofWire =
      (through accepts (wiring.incoming id)).map ofWire := by
    rw [through, List.filter_map, List.map_map]
    exact List.map_congr_left fun w _ => unplaced w
  rw [← whole, through_incoming built, List.map_filterMap, ← List.filterMap_eq_map]
  apply List.filterMap_congr
  intro edge member
  have joins : edge.Joins nodes :=
    (exists_build.mp ⟨wiring, built⟩).2 edge (List.mem_of_mem_filter member)
  obtain ⟨w, made⟩ := (exists_wire 0).mpr joins
  rw [unplaced?_eq_some made, Option.map_some, unplaced, same 0 edge w made]
  rfl

theorem variables_incoming (built : build nodes edges = .ok wiring) (id : String)
    (accepts : TargetPort → Bool) :
    (through accepts (wiring.incoming id)).map Wire.variable =
      (edges.filter (Edge.arrivesAt id accepts)).map (Edge.variable nodes) :=
  map_incoming built id accepts (fun _ => rfl) fun _ _ _ made => variable_of_wire made

theorem filter_isRead (distinct : (nodes.map Node.id).Nodup) {node : Node} (member : node ∈ nodes)
    (edges : List Edge) :
    (edges.filter (Edge.isRead nodes)).filter (Edge.arrivesAt node.id node.kind.reads) =
      edges.filter (Edge.arrivesAt node.id node.kind.reads) := by
  rw [List.filter_filter]
  apply List.filter_congr
  intro edge _
  cases arrives : Edge.arrivesAt node.id node.kind.reads edge with
  | false => rfl
  | true =>
      simp only [Edge.arrivesAt, Bool.and_eq_true, decide_eq_true_eq] at arrives
      have found : findNode? nodes edge.target = some node :=
        (findNode?_eq_some distinct).mpr ⟨member, arrives.1.symm⟩
      simp [Edge.isRead, found, arrives.2]

/-- Nodes become the same where the same edges are read. -/
theorem lower_incoming (built : build nodes edges = .ok wiring)
    (otherBuilt : build nodes others = .ok other)
    (same : others.filter (Edge.isRead nodes) = edges.filter (Edge.isRead nodes)) {node : Node}
    (member : node ∈ nodes) :
    node.lower (other.incoming node.id) = node.lower (wiring.incoming node.id) := by
  have distinct := (exists_build.mp ⟨wiring, built⟩).1
  rw [← Node.lower_unplaced, ← Node.lower_through, through_incoming otherBuilt,
    ← filter_isRead distinct member, same, filter_isRead distinct member,
    ← through_incoming built, Node.lower_through, Node.lower_unplaced]

theorem acyclic_filter (built : build nodes edges = .ok wiring) {kept : Edge → Bool}
    (otherBuilt : build nodes (edges.filter kept) = .ok other) (acyclic : wiring.Acyclic) :
    other.Acyclic := by
  have fewer : other.Precedes ≤ wiring.Precedes := by
    intro source target precedes
    rw [precedes_eq otherBuilt] at precedes
    rw [precedes_eq built]
    obtain ⟨edge, member, ends⟩ := precedes
    exact ⟨edge, List.mem_of_mem_filter member, ends⟩
  intro id cycle
  exact acyclic id (Relation.TransGen.mono fewer id id cycle)

end Wiring

namespace Compile.Course

variable {nodes : List Node} {edges others : List Edge} {wiring other : Wiring}
  {order otherOrder : List Node} {compiled again : Compiled}

theorem step_of_node (course : Course nodes edges wiring order compiled) {node : Node}
    (member : node ∈ nodes) (worker : node.kind ≠ .input) :
    ∃ step, compiled.pipeline.steps.filter (·.node = node.id) = [step] ∧
      node.Lowers (wiring.incoming node.id) step := by
  have distinct : (order.map Node.id).Nodup :=
    (course.perm.map Node.id).nodup_iff.mpr (Wiring.exists_build.mp ⟨wiring, course.built⟩).1
  have ordered : node ∈ order := course.perm.mem_iff.mpr member
  obtain isInput | ⟨step, made, lowers⟩ := course.isInput_or_step ordered
  · exact absurd isInput worker
  refine ⟨step, ?_, lowers⟩
  have elsewhere : ∀ part : List Node, node.id ∉ part.map Node.id →
      (part.filterMap (step? wiring)).filter (·.node = node.id) = [] := by
    intro part absent
    rw [List.filter_eq_nil_iff]
    intro other otherMember named
    obtain ⟨source, sourceMember, otherMade⟩ := List.mem_filterMap.mp otherMember
    have otherLowers := Node.lowers_of_lower (step?_eq_some.mp otherMade)
    rw [decide_eq_true_eq, otherLowers.node_eq] at named
    exact absent (List.mem_map.mpr ⟨source, sourceMember, named⟩)
  obtain ⟨earlier, later, rfl⟩ := List.append_of_mem ordered
  rw [List.map_append, List.map_cons, List.nodup_append, List.nodup_cons] at distinct
  obtain ⟨-, ⟨notLater, -⟩, apart⟩ := distinct
  have notEarlier : node.id ∉ earlier.map Node.id := by
    intro present
    exact apart _ present _ List.mem_cons_self rfl
  rw [course.steps, List.filterMap_append, List.filterMap_cons_some made, List.filter_append,
    elsewhere earlier notEarlier, List.filter_cons_of_pos (by simp [lowers.node_eq]),
    elsewhere later notLater, List.nil_append]

/-- The step of a node reads the variables of the edges that the node reads. -/
theorem inputs_of_node (course : Course nodes edges wiring order compiled) {node : Node}
    (member : node ∈ nodes) (worker : node.kind ≠ .input) :
    ∃ step, compiled.pipeline.steps.filter (·.node = node.id) = [step] ∧
      step.inputs.Perm ((edges.filter (Edge.arrivesAt node.id node.kind.reads)).map
        (Edge.variable nodes)) := by
  obtain ⟨step, only, lowers⟩ := course.step_of_node member worker
  refine ⟨step, only, ?_⟩
  rw [← Wiring.variables_incoming course.built]
  exact lowers.supplied.perm

/-- Edges that are not read can be left out. -/
theorem exists_of_isRead (course : Course nodes edges wiring order compiled) :
    ∃ again, compile nodes (edges.filter (Edge.isRead nodes)) = .ok again := by
  obtain ⟨distinct, joined⟩ := Wiring.exists_build.mp ⟨wiring, course.built⟩
  have stillJoined : ∀ edge ∈ edges.filter (Edge.isRead nodes), edge.Joins nodes := by
    intro edge member
    exact joined edge (List.mem_of_mem_filter member)
  obtain ⟨other, otherBuilt⟩ := Wiring.exists_build.mpr ⟨distinct, stillJoined⟩
  refine (exists_named _).mpr (course.exists_alike otherBuilt ?_ ?_)
  · exact Wiring.acyclic_filter course.built otherBuilt course.acyclic
  · intro node member
    refine Wiring.lower_incoming course.built otherBuilt ?_ member
    rw [List.filter_filter]
    simp only [Bool.and_self]

end Compile.Course

/-- The step of each node that is no input reads one variable for each edge that
the node reads, and no other.  The edges that are not read can be left out, and
others put in their place: if the graph still compiles, then it compiles to the
same steps, in some order. -/
theorem compile_reads_edges {nodes : List Node} {edges : List Edge} {compiled : Compiled}
    (success : compile nodes edges = .ok compiled) :
    (∀ node ∈ nodes, node.kind ≠ .input →
        ∃ step, compiled.pipeline.steps.filter (·.node = node.id) = [step] ∧
          step.inputs.Perm ((edges.filter (Edge.arrivesAt node.id node.kind.reads)).map
            (Edge.variable nodes))) ∧
      (∃ again, compile nodes (edges.filter (Edge.isRead nodes)) = .ok again) ∧
        ∀ others again, others.filter (Edge.isRead nodes) = edges.filter (Edge.isRead nodes) →
          compile nodes others = .ok again →
            compiled.pipeline.steps.Perm again.pipeline.steps ∧
              compiled.nodeVars = again.nodeVars := by
  obtain ⟨-, wiring, order, course⟩ := Compile.named_eq_ok.mp success
  refine ⟨fun node => course.inputs_of_node, course.exists_of_isRead, ?_⟩
  intro others again same otherSuccess
  obtain ⟨-, other, otherOrder, otherCourse⟩ := Compile.named_eq_ok.mp otherSuccess
  apply course.alike otherCourse
  intro node member
  exact Wiring.lower_incoming course.built otherCourse.built same member

theorem adrift_reads_edges :
    ∃ compiled, compile Graph.adrift.nodes Graph.adrift.edges = .ok compiled ∧
      (∃ step, compiled.pipeline.steps.filter (·.node = "split") = [step] ∧
        step.inputs.Perm ["photo"]) ∧
      ∃ step, compiled.pipeline.steps.filter (·.node = "sea") = [step] ∧
        step.inputs.Perm [] := by
  obtain ⟨compiled, success⟩ := exists_compiled_adrift
  have reads := (compile_reads_edges success).1
  have photo : (Graph.adrift.edges.filter (Edge.arrivesAt "split" NodeKind.fanOut.reads)).map
      (Edge.variable Graph.adrift.nodes) = ["photo"] := by
    decide +kernel
  have nothing : (Graph.adrift.edges.filter (Edge.arrivesAt "sea" NodeKind.generator.reads)).map
      (Edge.variable Graph.adrift.nodes) = [] := by
    decide +kernel
  obtain ⟨split, onlySplit, splitReads⟩ := reads Graph.adrift.nodes[1] (by decide) (by decide)
  obtain ⟨sea, onlySea, seaReads⟩ := reads Graph.adrift.nodes[2] (by decide) (by decide)
  exact ⟨compiled, success, ⟨split, onlySplit, splitReads.trans (List.Perm.of_eq photo)⟩,
    sea, onlySea, seaReads.trans (List.Perm.of_eq nothing)⟩

end Workflow
