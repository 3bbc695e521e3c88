import Workflow.Proofs.WellFormed

/-!
# One step for each node

A pipeline has one step for each node of the graph that is no input, in the order of
the nodes, and each step stands where its node's id finds it.  Along each edge the
positions ascend, whether or not the target reads the edge.
-/

namespace Workflow

/-- The kind of the step that carries out a node of a kind. -/
def NodeKind.step? : NodeKind → Option StepKind
  | input => none
  | generator => some .generate
  | transform => some .transform
  | save => some .save
  | vision => some .vision
  | text => some .text
  | fanOut => some .fanOut
  | collect => some .collect
  | router => some .router

namespace Step

/-- A fan-out has between one and 1024 slots, numbered after its node.  A router
selects between one and 1024 candidates, and binds a context if it has a field for it. -/
def Bounded : Step → Prop
  | fanOut s => (1 ≤ s.count ∧ s.count ≤ 1024) ∧
      s.out = (List.range s.count).map fun slot => s!"{s.node}_{slot}"
  | router s => (1 ≤ s.outputCount ∧ s.outputCount ≤ 1024) ∧
      s.contextOut = s.contextProperty.map fun _ => s.out ++ "_context"
  | generate _ | transform _ | save _ | vision _ | text _ | collect _ => True

/-- A step carries out a node: it has its id, the kind for its kind, and its bounds. -/
structure CarriesOut (step : Step) (node : Node) : Prop where
  id : step.node = node.id
  kind : node.kind.step? = some step.kind
  bounded : step.Bounded

end Step

namespace Node

variable {node : Node} {arriving : List Wire} {step : Step}

theorem width?_bounds {name : String} {count : Nat} (given : node.width? name = some count) :
    1 ≤ count ∧ count ≤ 1024 := by
  rw [width?, Option.filter_eq_some_iff] at given
  exact of_decide_eq_true given.2

/-- The step that a node is lowered to carries it out. -/
theorem Lowers.carriesOut (lowers : node.Lowers arriving step) : step.CarriesOut node := by
  refine ⟨lowers.node_eq, ?_, ?_⟩
  · cases lowers <;> simp [*, NodeKind.step?, Step.kind]
  · cases lowers with
    | fanOut _ _ _ counted => exact ⟨width?_bounds counted, rfl⟩
    | @router _ _ _ outputCount _ _ _ _ counted =>
        refine ⟨?_, rfl⟩
        have single : 1 ≤ 1 ∧ 1 ≤ 1024 := by decide
        cases outputCount with
        | none => exact single
        | some count => exact width?_bounds (countParam?_eq_ok.mp counted).1.symm
    | generate | transform | save | vision | text | collect => trivial

end Node

namespace Compile

theorem get?_nodeVars (known : KeyMap String) (nodes : List Node) (id : String) :
    (nodeVars known nodes).get? id =
      if nodes.any fun node => node.id = id && node.kind.producesVariable then some id
      else known.get? id := by
  induction nodes generalizing known with
  | nil => rfl
  | cons node nodes induction =>
      rw [nodeVars, List.foldl_cons, ← nodeVars, induction, List.any_cons]
      by_cases produces : node.kind.producesVariable
      · by_cases same : node.id = id
        · simp [produces, same, KeyMap.get?_insert]
        · simp [produces, same, Ne.symm same, KeyMap.get?_insert]
      · simp [produces]

namespace Course

variable {nodes : List Node} {edges : List Edge} {wiring : Wiring} {order : List Node}
  {compiled : Compiled}

/-- The steps of part of an order carry out the nodes of the part, one each. -/
theorem carriesOut_of_subset (course : Course nodes edges wiring order compiled)
    {part : List Node} (within : ∀ node ∈ part, node ∈ order) :
    List.Forall₂ (fun node step => step.CarriesOut node)
      (part.filter fun node => node.kind ≠ .input) (part.filterMap (step? wiring)) := by
  induction part with
  | nil => exact .nil
  | cons node rest induction =>
      have tail := induction fun other member => within other (List.mem_cons_of_mem _ member)
      rcases course.isInput_or_step (within node List.mem_cons_self) with
        isInput | ⟨step, made, lowers⟩
      · have stepless : step? wiring node = none := by
          simp [step?, Node.lower_of_input isInput]
        simpa [isInput, stepless] using tail
      · have worker : node.kind ≠ .input := by
          cases lowers <;> simp [*]
        rw [List.filter_cons_of_pos (by simpa using worker), List.filterMap_cons_some made]
        exact .cons lowers.carriesOut tail

theorem carriesOut (course : Course nodes edges wiring order compiled) :
    List.Forall₂ (fun node step => step.CarriesOut node)
      (order.filter fun node => node.kind ≠ .input) compiled.pipeline.steps := by
  rw [course.steps]
  exact course.carriesOut_of_subset fun _ member => member

theorem ids_of_steps (course : Course nodes edges wiring order compiled) :
    compiled.pipeline.steps.map Step.node =
      (order.filter fun node => node.kind ≠ .input).map Node.id := by
  rw [← List.forall₂_eq_eq_eq, List.forall₂_map_left_iff, List.forall₂_map_right_iff]
  exact course.carriesOut.flip.imp fun _ _ carries => carries.id

theorem nodup_ids_of_steps (course : Course nodes edges wiring order compiled) :
    (compiled.pipeline.steps.map Step.node).Nodup := by
  rw [course.ids_of_steps]
  have distinct : (order.map Node.id).Nodup :=
    (course.perm.map Node.id).nodup_iff.mpr (Wiring.exists_build.mp ⟨wiring, course.built⟩).1
  exact distinct.sublist (List.filter_sublist.map Node.id)

theorem position?_of_getElem? (course : Course nodes edges wiring order compiled) {i : Nat}
    {step : Step} (here : compiled.pipeline.steps[i]? = some step) :
    compiled.pipeline.position? step.node = some i :=
  findIdx?_of_nodup course.nodup_ids_of_steps here

theorem source_mem_before (course : Course nodes edges wiring order compiled) {edge : Edge}
    (member : edge ∈ edges) {source target : Node} (sourceMember : source ∈ nodes)
    (leaves : source.id = edge.source) (arrives : target.id = edge.target)
    {before after : List Node} (split : order = before ++ target :: after) : source ∈ before := by
  have distinct := (Wiring.exists_build.mp ⟨wiring, course.built⟩).1
  have proper := Wiring.build_proper course.built
  have ordered := Wiring.order_ordered proper course.ordered
  obtain ⟨wire, wireMember, carries⟩ := Wiring.exists_wire_of_edge course.built member
  have sourceOf : wire.source = source := by
    refine List.inj_on_of_nodup_map distinct ?_ sourceMember (carries.source.trans leaves.symm)
    rw [← Wiring.build_nodes course.built]
    exact proper.source_mem wire wireMember
  rw [← sourceOf]
  apply ordered.sources before target after split wire wireMember
  exact carries.target.trans arrives.symm

/-- The step of an edge's source stands before the step of its target. -/
theorem position?_lt (course : Course nodes edges wiring order compiled) {edge : Edge}
    (member : edge ∈ edges) {source target : Node} (sourceMember : source ∈ nodes)
    (targetMember : target ∈ nodes) (leaves : source.id = edge.source)
    (arrives : target.id = edge.target) (sourceWorks : source.kind ≠ .input)
    (targetWorks : target.kind ≠ .input) :
    ∃ i j, compiled.pipeline.position? edge.source = some i ∧
      compiled.pipeline.position? edge.target = some j ∧ i < j := by
  have sourceOrdered := course.perm.mem_iff.mpr sourceMember
  have targetOrdered := course.perm.mem_iff.mpr targetMember
  obtain ⟨sourceStep, sourceMade, sourceLowers⟩ :=
    (course.isInput_or_step sourceOrdered).resolve_left sourceWorks
  obtain ⟨targetStep, targetMade, targetLowers⟩ :=
    (course.isInput_or_step targetOrdered).resolve_left targetWorks
  obtain ⟨before, after, split⟩ := List.append_of_mem targetOrdered
  have earlier := course.source_mem_before member sourceMember leaves arrives split
  have steps : compiled.pipeline.steps =
      before.filterMap (step? wiring) ++ targetStep :: after.filterMap (step? wiring) := by
    rw [course.steps, split, List.filterMap_append, List.filterMap_cons_some targetMade]
  obtain ⟨i, inFront, here⟩ := List.mem_iff_getElem.mp
    (List.mem_filterMap.mpr ⟨source, earlier, sourceMade⟩)
  refine ⟨i, (before.filterMap (step? wiring)).length, ?_, ?_, inFront⟩
  · rw [← leaves, ← sourceLowers.node_eq]
    apply course.position?_of_getElem?
    rw [steps, List.getElem?_append_left inFront, List.getElem?_eq_getElem inFront, here]
  · rw [← arrives, ← targetLowers.node_eq]
    exact course.position?_of_getElem? (by simp [steps])

theorem get?_nodeVars_eq_some (course : Course nodes edges wiring order compiled)
    {id name : String} :
    compiled.nodeVars.get? id = some name ↔
      name = id ∧ ∃ node ∈ nodes, node.id = id ∧ node.kind ≠ .save := by
  have produces : ∀ node : Node, node.kind.producesVariable = true ↔ node.kind ≠ .save := by
    intro node
    cases node.kind <;> decide
  have found : (order.any fun node => node.id = id && node.kind.producesVariable) = true ↔
      ∃ node ∈ nodes, node.id = id ∧ node.kind ≠ .save := by
    simp [List.any_eq_true, produces, course.perm.mem_iff]
  rw [course.nodeVars, get?_nodeVars, ← found]
  have nothing : (∅ : KeyMap String).get? id = none := rfl
  split
  · rename_i isVariable
    rw [Option.some_inj, eq_comm, and_iff_left isVariable]
  · rename_i absent
    simp [absent, nothing]

end Course

end Compile

/-- A compiled graph has one step for each of its nodes but the inputs, in the order of
the nodes: a step of the node's kind and within its bounds.  A node's id finds its step,
and the steps at the ends of an edge stand in the edge's direction.  The variables of
nodes are the ids of all nodes that save nothing. -/
theorem compile_steps {name : String} {nodes : List Node} {edges : List Edge}
    {compiled : Compiled} (success : Compile.named name nodes edges = .ok compiled) :
    ∃ wiring order, Wiring.build nodes edges = .ok wiring ∧ wiring.order = .ok order ∧
      List.Forall₂ (fun node step => step.CarriesOut node)
        (order.filter fun node => node.kind ≠ .input) compiled.pipeline.steps ∧
      compiled.pipeline.steps.map Step.node =
        (order.filter fun node => node.kind ≠ .input).map Node.id ∧
      (∀ (i : Nat) (step : Step), compiled.pipeline.steps[i]? = some step →
        compiled.pipeline.position? step.node = some i) ∧
      (∀ edge ∈ edges, ∀ source ∈ nodes, ∀ target ∈ nodes,
        source.id = edge.source → target.id = edge.target →
          source.kind ≠ .input → target.kind ≠ .input →
            ∃ i j, compiled.pipeline.position? edge.source = some i ∧
              compiled.pipeline.position? edge.target = some j ∧ i < j) ∧
      ∀ id name, compiled.nodeVars.get? id = some name ↔
        name = id ∧ ∃ node ∈ nodes, node.id = id ∧ node.kind ≠ .save := by
  obtain ⟨-, wiring, order, course⟩ := Compile.named_eq_ok.mp success
  refine ⟨wiring, order, course.built, course.ordered, course.carriesOut, course.ids_of_steps,
    ?_, ?_, ?_⟩
  · intro i step here
    exact course.position?_of_getElem? here
  · intro edge member source sourceMember target targetMember
    exact course.position?_lt member sourceMember targetMember
  · intro id name
    exact course.get?_nodeVars_eq_some

/-- A graph in which an input has the name that a third slot would have, and a generator
does not read the edge that leads to it. -/
def Graph.gallery : Graph :=
  ({} : Graph)
    |>.save "keep"
    |>.addNode (({ id := "pick", kind := .router } : Node)
      |>.withParam "outputCount" (.nat 2)
      |>.withParam "contextProperty" (.string "reason"))
    |>.generator "sea" "paint" "a calm sea"
    |>.fanOut "photo" 2
    |>.input "photos"
    |>.input "photo_2"
    |>.edge "photos" "photo"
    |>.edgeTo "photo" "sea" "in"
    |>.edgeTo "photo" "pick" "candidates"
    |>.edgeTo "photo_2" "pick" "selection"
    |>.edgeBetween "pick" "context" "keep" "in"

theorem gallery_steps :
    ∃ compiled, Compile.named "gallery" Graph.gallery.nodes Graph.gallery.edges = .ok compiled ∧
      compiled.pipeline.steps.map Step.node = ["photo", "sea", "pick", "keep"] ∧
      (∃ i j, compiled.pipeline.position? "photo" = some i ∧
        compiled.pipeline.position? "sea" = some j ∧ i < j) ∧
      compiled.nodeVars.get? "photo_2" = some "photo_2" ∧
      compiled.nodeVars.get? "keep" ≠ some "keep" := by
  have computed : (Compile.named "gallery" Graph.gallery.nodes
      Graph.gallery.edges).toOption.any fun compiled =>
        compiled.pipeline.steps.map Step.node = ["photo", "sea", "pick", "keep"] := by
    decide +kernel
  obtain ⟨compiled, success, ids⟩ := Outcome.exists_ok_of_any computed
  obtain ⟨wiring, order, -, -, -, -, -, onwards, vars⟩ := compile_steps success
  refine ⟨compiled, success, of_decide_eq_true ids, ?_, ?_, ?_⟩
  · exact onwards (Graph.gallery.edges.get ⟨1, by decide⟩) (List.get_mem _ _)
      (Graph.gallery.nodes.get ⟨3, by decide⟩) (List.get_mem _ _)
      (Graph.gallery.nodes.get ⟨2, by decide⟩) (List.get_mem _ _)
      (by decide) (by decide) (by decide) (by decide)
  · exact (vars "photo_2" "photo_2").mpr ⟨rfl, by decide⟩
  · intro kept
    exact absurd ((vars "keep" "keep").mp kept).2 (by decide)

end Workflow
