import Workflow.Proofs.Handles
import Workflow.Proofs.Reading

/-!
# Ports with an order of their own

The overlays of a step and the slots of a collector are in the order of their indices,
which stay as the handles give them.  Reference images, and what a collector joins
beside its slots, are in the order of the edges.  An index can be taken once; the graph
does not compile where two edges take it.
-/

namespace Workflow

open Lowering

namespace Edge

/-- The overlay that an edge brings, if it arrives at such a port. -/
def overlay? (nodes : List Node) (edge : Edge) : Option ImageRef :=
  match TargetPort.ofHandle edge.targetHandle with
  | .overlay index => some ⟨edge.variable nodes, index⟩
  | _ => none

/-- The slot of an edge and what it brings there, if it arrives at a slot. -/
def slotted? (nodes : List Node) (edge : Edge) : Option (Nat × String) :=
  match TargetPort.ofHandle edge.targetHandle with
  | .slot index => some (index, edge.variable nodes)
  | _ => none

def leadingTo (id : String) (edges : List Edge) : List Edge :=
  edges.filter fun edge => edge.target = id

def through (accepts : TargetPort → Bool) (arriving : List Edge) : List Edge :=
  arriving.filter fun edge => accepts (.ofHandle edge.targetHandle)

end Edge

/-- The references of a step follow the edges that lead to its node: the overlays are
those of the edges, in ascending order, and the reference images are numbered in the
order of the edges. -/
structure Deferred.Follows (deferred : Deferred) (nodes : List Node) (arriving : List Edge) :
    Prop where
  overlays : deferred.overlays.Perm (arriving.filterMap (Edge.overlay? nodes))
  ascending : deferred.overlays.Pairwise fun first later => first.index < later.index
  references : deferred.references =
    ((Edge.through (· = .references) arriving).map (Edge.variable nodes)).mapIdx fun place name =>
      ⟨name, place⟩

/-- A collector follows the edges that lead to its node: those at slots in ascending
order, and then the others as they come. -/
def CollectStep.Follows (step : CollectStep) (nodes : List Node) (arriving : List Edge) : Prop :=
  ∃ slotted : List (Nat × String),
    slotted.Perm (arriving.filterMap (Edge.slotted? nodes)) ∧
      slotted.Pairwise (fun first later => first.1 < later.1) ∧
      step.inputs = slotted.map Prod.snd ++
        (Edge.through (fun port => !port.isSlot) arriving).map (Edge.variable nodes)

/-- Whether nodes of a kind have room for one edge only at a port, by its index. -/
def NodeKind.TakesOne (kind : NodeKind) (port : TargetPort) : Prop :=
  (kind ∈ [.generator, .transform, .vision, .text] ∧ port.isOverlay) ∨
    (kind = .collect ∧ port.isSlot)

namespace Edge

variable {nodes : List Node} {edges : List Edge} {id : String}

theorem through_leadingTo (accepts : TargetPort → Bool) :
    through accepts (leadingTo id edges) = edges.filter (arrivesAt id accepts) := by
  rw [through, leadingTo, List.filter_filter]
  exact List.filter_congr fun edge _ => Bool.and_comm _ _

theorem count_portsAt (port : TargetPort) :
    (portsAt edges id).count port = edges.countP (arrivesAt id (· = port)) := by
  rw [portsAt, List.count_eq_countP, List.countP_map, List.countP_filter]
  apply List.countP_congr
  intro edge _
  simp [arrivesAt, and_comm]

end Edge

namespace Wiring

variable {nodes : List Node} {edges : List Edge} {wiring : Wiring}

theorem filterMap_incoming (built : build nodes edges = .ok wiring) (id : String)
    {ofWire : Wire → Option α} {ofEdge : Edge → Option α}
    (unplaced : ∀ w : Wire, ofWire w.unplaced = ofWire w)
    (same : ∀ index edge w, wire nodes index edge = .ok w → ofWire w = ofEdge edge) :
    (wiring.incoming id).filterMap ofWire = (Edge.leadingTo id edges).filterMap ofEdge := by
  have all := map_incoming built id (fun _ => true) unplaced same
  rw [through_all, ← Edge.through_leadingTo, Edge.through, List.filter_true] at all
  have flat := congrArg (List.filterMap fun found => found) all
  simpa [List.filterMap_map, Function.comp_def] using flat

theorem overlays_incoming (built : build nodes edges = .ok wiring) (id : String) :
    (wiring.incoming id).filterMap Lowering.overlay? =
      (Edge.leadingTo id edges).filterMap (Edge.overlay? nodes) := by
  refine filterMap_incoming built id (fun _ => rfl) ?_
  intro index edge w made
  obtain ⟨-, -, -, -, -, arrives⟩ := wire_eq_ok.mp made
  have read := variable_of_wire made
  unfold Lowering.overlay? Edge.overlay?
  rw [arrives]
  cases TargetPort.ofHandle edge.targetHandle <;> simp [read]

theorem slots_incoming (built : build nodes edges = .ok wiring) (id : String) :
    (wiring.incoming id).filterMap Lowering.slotted? =
      (Edge.leadingTo id edges).filterMap (Edge.slotted? nodes) := by
  refine filterMap_incoming built id (fun _ => rfl) ?_
  intro index edge w made
  obtain ⟨-, -, -, -, -, arrives⟩ := wire_eq_ok.mp made
  have read := variable_of_wire made
  unfold Lowering.slotted? Edge.slotted?
  rw [arrives]
  cases TargetPort.ofHandle edge.targetHandle <;> simp [read]

end Wiring

namespace Node

variable {node : Node} {arriving : List Wire} {step : Step}

theorem Lowers.exists_references (lowers : node.Lowers arriving step)
    (backed : step.kind.isProviderBacked) :
    ∃ deferred, step.deferred? = some deferred ∧ references node arriving = .ok deferred := by
  cases lowers with
  | generate _ _ resolved | transform _ _ _ resolved | vision _ _ _ _ _ resolved
  | text _ _ _ resolved => exact ⟨_, rfl, resolved⟩
  | save | fanOut | collect | router => exact absurd backed Bool.false_ne_true

end Node

namespace Compile.Course

variable {nodes : List Node} {edges : List Edge} {wiring : Wiring} {order : List Node}
  {compiled : Compiled} {node : Node}

theorem deferred_follows (course : Course nodes edges wiring order compiled) {deferred : Deferred}
    (resolved : references node (wiring.incoming node.id) = .ok deferred) :
    deferred.Follows nodes (Edge.leadingTo node.id edges) := by
  obtain ⟨listed, extended, rfl⟩ := references_eq_ok.mp resolved
  constructor
  · rw [← Wiring.overlays_incoming course.built]
    have all : listed.overlays = (wiring.incoming node.id).filterMap Lowering.overlay? :=
      extended.overlays
    exact all ▸ ascending_perm
  · exact ascending_strict extended.distinct
  · have numbered : listed.references =
        ((through (· = .references) (wiring.incoming node.id)).map Wire.variable).mapIdx
          fun place name => ⟨name, place⟩ := by
      rw [extended.references]
      exact List.ext_getElem (by simp) (by simp)
    rw [Edge.through_leadingTo, ← Wiring.variables_incoming course.built]
    exact numbered

theorem collect_follows (course : Course nodes edges wiring order compiled) {step : CollectStep}
    (lowers : node.Lowers (wiring.incoming node.id) (.collect step)) :
    step.Follows nodes (Edge.leadingTo node.id edges) := by
  cases lowers with
  | @collect gathered _ _ resolved =>
      have empty : (({} : Gathered).slotted.map Prod.fst).Nodup := List.nodup_nil
      have gathers := (foldlM_gather_eq_ok empty).mp resolved
      refine ⟨ascending Prod.fst gathered.slotted, ?_, ascending_strict gathers.distinct, ?_⟩
      · rw [← Wiring.slots_incoming course.built]
        have all : gathered.slotted = (wiring.incoming node.id).filterMap Lowering.slotted? :=
          gathers.slotted
        exact all ▸ ascending_perm
      · have others : gathered.others =
            (through (fun port => !port.isSlot) (wiring.incoming node.id)).map Wire.variable :=
          gathers.others
        rw [Edge.through_leadingTo, ← Wiring.variables_incoming course.built, ← others]
        rfl

theorem countP_le_one (course : Course nodes edges wiring order compiled) (member : node ∈ nodes)
    {port : TargetPort} (takesOne : node.kind.TakesOne port) :
    edges.countP (Edge.arrivesAt node.id (· = port)) ≤ 1 := by
  have lowered := course.lowered node (course.perm.mem_iff.mpr member)
  obtain ⟨-, connected, -⟩ := (node.exists_lower _).mp lowered
  rw [Wiring.arrives_incoming course.built] at connected
  rw [← Edge.count_portsAt]
  rcases takesOne with ⟨provided, isOverlay⟩ | ⟨isCollect, isSlot⟩
  · obtain ⟨index, rfl⟩ : ∃ index, port = .overlay index := by
      cases port <;> simp [TargetPort.isOverlay] at isOverlay ⊢
    have referenced : Referenced (Edge.portsAt edges node.id) := by
      simp only [List.mem_cons, List.not_mem_nil, or_false] at provided
      rcases provided with kind | kind | kind | kind <;> rw [kind] at connected
      · exact connected
      · exact connected.2
      · exact connected.2
      · exact connected.2
    exact referenced.overlays index
  · obtain ⟨index, rfl⟩ : ∃ index, port = .slot index := by
      cases port <;> simp [TargetPort.isSlot] at isSlot ⊢
    rw [isCollect] at connected
    exact connected.2 index

end Compile.Course

/-- In a compiled graph, the steps with references and the collectors follow the edges
that lead to their nodes.  A graph does not compile if two edges share an overlay of a
node, or a slot of a collector, in whatever spelling of its index. -/
theorem compile_keeps_indices (name : String) (nodes : List Node) (edges : List Edge) :
    (∀ compiled, Compile.named name nodes edges = .ok compiled →
      ∀ step ∈ compiled.pipeline.steps,
        (step.kind.isProviderBacked →
          ∃ deferred, step.deferred? = some deferred ∧
            deferred.Follows nodes (Edge.leadingTo step.node edges)) ∧
        ∀ collector, step = .collect collector →
          collector.Follows nodes (Edge.leadingTo step.node edges)) ∧
    (∀ node ∈ nodes, ∀ port, node.kind.TakesOne port →
      2 ≤ edges.countP (Edge.arrivesAt node.id (· = port)) →
        ∃ error, Compile.named name nodes edges = .error error) ∧
    (∀ handle index, TargetPort.ofHandle (some handle) = .overlay index ↔
      Port.Spells ["overlays", "overlay"] handle index) ∧
    ∀ handle index, TargetPort.ofHandle (some handle) = .slot index ↔
      Port.Spells ["in", "inputs"] handle index := by
  refine ⟨?_, ?_, fun _ _ => TargetPort.ofHandle_eq_overlay,
    fun _ _ => TargetPort.ofHandle_eq_slot⟩
  · intro compiled success step member
    obtain ⟨-, wiring, order, course⟩ := Compile.named_eq_ok.mp success
    obtain ⟨node, -, lowers⟩ := course.exists_lowers member
    rw [lowers.node_eq]
    constructor
    · intro backed
      obtain ⟨deferred, holds, resolved⟩ := lowers.exists_references backed
      exact ⟨deferred, holds, course.deferred_follows resolved⟩
    · intro collector isCollect
      exact course.collect_follows (isCollect ▸ lowers)
  · intro node member port takesOne twice
    cases outcome : Compile.named name nodes edges with
    | error error => exact ⟨error, rfl⟩
    | ok compiled =>
        obtain ⟨-, wiring, order, course⟩ := Compile.named_eq_ok.mp outcome
        have once := course.countP_le_one member takesOne
        omega

/-- A graph whose indices are sparse, and neither in order nor spelled alike. -/
def Graph.poster : Graph :=
  ({} : Graph)
    |>.transform "scene" "compose"
    |>.input "sky"
    |>.input "sun"
    |>.input "cat"
    |>.edge "sky" "scene"
    |>.edgeTo "cat" "scene" "overlays[ 18446744073709551615 ]"
    |>.edgeTo "sun" "scene" " overlay[+05]"

theorem poster_keeps_indices :
    (∃ compiled, Compile.named "poster" Graph.poster.nodes Graph.poster.edges = .ok compiled ∧
      ∃ step ∈ compiled.pipeline.steps, ∃ deferred, step.deferred? = some deferred ∧
        deferred.Follows Graph.poster.nodes (Edge.leadingTo step.node Graph.poster.edges) ∧
        deferred.overlays = [⟨"sun", 5⟩, ⟨"cat", 18446744073709551615⟩]) ∧
    ∃ error, Compile.named "poster" Graph.poster.nodes
      (Graph.poster.edgeTo "sky" "scene" "overlays[5]").edges = .error error := by
  constructor
  · have computed : (Compile.named "poster" Graph.poster.nodes
        Graph.poster.edges).toOption.any fun compiled =>
          compiled.pipeline.steps.any fun step => step.kind.isProviderBacked &&
            step.deferred?.all fun deferred =>
              deferred.overlays = [⟨"sun", 5⟩, ⟨"cat", 18446744073709551615⟩] := by
      decide +kernel
    obtain ⟨compiled, success, computed⟩ := Outcome.exists_ok_of_any computed
    obtain ⟨step, member, computed⟩ := List.any_eq_true.mp computed
    obtain ⟨backed, overlays⟩ := Bool.and_eq_true_iff.mp computed
    obtain ⟨follows, -⟩ := compile_keeps_indices "poster" Graph.poster.nodes Graph.poster.edges
    obtain ⟨deferred, holds, followed⟩ := (follows compiled success step member).1 backed
    rw [holds] at overlays
    exact ⟨compiled, success, step, member, deferred, holds, followed, of_decide_eq_true overlays⟩
  · obtain ⟨-, shared, -⟩ := compile_keeps_indices "poster" Graph.poster.nodes
      (Graph.poster.edgeTo "sky" "scene" "overlays[5]").edges
    exact shared (Graph.poster.nodes.get ⟨0, by decide⟩) (List.get_mem _ _) (.overlay 5)
      (Or.inl ⟨by decide, rfl⟩) (by decide)

end Workflow
