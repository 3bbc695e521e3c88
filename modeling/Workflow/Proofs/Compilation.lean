import Workflow.Graph.Sample
import Workflow.Proofs.Lookup
import Workflow.Proofs.Lowering
import Workflow.Proofs.Order

/-!
# The course of a compilation

A compilation succeeds in three stages: the graph is wired, its nodes are
ordered, and each node adds its step and reserves its variables.  `Course`
records what the stages leave behind.  A step of the pipeline stands where its
node stands in the order, so it reads only what inputs and earlier steps bind.
-/

namespace Workflow

namespace Compile

def step? (wiring : Wiring) (node : Node) : Option Step :=
  match node.lower (wiring.incoming node.id) with
  | .ok step => step
  | .error _ => none

/-- The variable of each node that has one, added to those that are known. -/
def nodeVars (known : KeyMap String) (nodes : List Node) : KeyMap String :=
  nodes.foldl
    (fun vars node =>
      if node.kind.producesVariable then vars.insert node.id node.id else vars)
    known

/-- What compiling further nodes adds. -/
structure Adds (wiring : Wiring) (start : Progress) (nodes : List Node)
    (result : Progress) : Prop where
  lowered : ∀ node ∈ nodes, ∃ step, node.lower (wiring.incoming node.id) = .ok step
  steps : result.steps = start.steps ++ nodes.filterMap (step? wiring)
  nodeVars : result.nodeVars = nodeVars start.nodeVars nodes
  produced : result.produced = (nodes.flatMap Node.outputs).reverse ++ start.produced
  distinct : result.produced.Nodup

variable {wiring : Wiring}

theorem reserve_eq_ok {node : String} {produced names result : List String}
    (distinct : produced.Nodup) :
    reserve node produced names = .ok result ↔
      result = names.reverse ++ produced ∧ result.Nodup := by
  induction names generalizing produced with
  | nil =>
      simp only [reserve, Except.ok.injEq, List.reverse_nil, List.nil_append]
      constructor
      · rintro rfl
        exact ⟨rfl, distinct⟩
      · intro conditions
        obtain ⟨rfl, -⟩ := conditions
        rfl
  | cons name names induction =>
      by_cases known : name ∈ produced
      · simp only [reserve, List.contains_eq_mem, known, decide_true, if_true, reduceCtorEq,
          List.reverse_cons, List.append_assoc, List.singleton_append, false_iff, not_and]
        rintro rfl again
        exact (List.nodup_cons.mp (List.nodup_append.mp again).2.1).1 known
      · have further : (name :: produced).Nodup := List.nodup_cons.mpr ⟨known, distinct⟩
        simp [reserve, known, induction further]

theorem add_eq_ok {start next : Progress} {node : Node} (distinct : start.produced.Nodup) :
    add wiring start node = .ok next ↔ Adds wiring start [node] next := by
  simp only [add, Outcome.bind_eq_ok, Outcome.pure_eq_ok, reserve_eq_ok distinct]
  constructor
  · intro success
    obtain ⟨step, lowered, produced, ⟨reserved, further⟩, rfl⟩ := success
    constructor
    · simp [lowered]
    · cases step <;> simp [step?, lowered]
    · rfl
    · simpa [Node.bound_eq_outputs lowered] using reserved
    · exact further
  · intro adds
    obtain ⟨step, lowered⟩ := adds.lowered node List.mem_cons_self
    refine ⟨step, lowered, next.produced, ⟨?_, adds.distinct⟩, ?_⟩
    · simpa [Node.bound_eq_outputs lowered] using adds.produced
    · obtain ⟨steps, vars, produced⟩ := next
      have stepsAdded := adds.steps
      have varsAdded := adds.nodeVars
      simp only [step?, lowered, List.filterMap_cons, List.filterMap_nil] at stepsAdded
      simp only [nodeVars, List.foldl_cons, List.foldl_nil] at varsAdded
      subst stepsAdded varsAdded
      cases step <;> rfl

theorem adds_cons {start result : Progress} {node : Node} {nodes : List Node} :
    Adds wiring start (node :: nodes) result ↔
      ∃ next, Adds wiring start [node] next ∧ Adds wiring next nodes result := by
  constructor
  · intro adds
    refine ⟨⟨start.steps ++ [node].filterMap (step? wiring), nodeVars start.nodeVars [node],
      node.outputs.reverse ++ start.produced⟩, ?_, ?_⟩
    · constructor
      · simpa using adds.lowered node List.mem_cons_self
      · rfl
      · rfl
      · simp
      · have distinct := adds.distinct
        rw [adds.produced, List.flatMap_cons, List.reverse_append, List.append_assoc] at distinct
        exact (List.nodup_append.mp distinct).2.1
    · constructor
      · exact fun later member => adds.lowered later (List.mem_cons_of_mem _ member)
      · rw [adds.steps, List.append_assoc, ← List.filterMap_append, List.singleton_append]
      · exact adds.nodeVars
      · simp [adds.produced]
      · exact adds.distinct
  · intro parts
    obtain ⟨next, first, rest⟩ := parts
    constructor
    · rintro later (_ | ⟨_, member⟩)
      · exact first.lowered node List.mem_cons_self
      · exact rest.lowered later member
    · rw [rest.steps, first.steps, List.append_assoc, ← List.filterMap_append,
        List.singleton_append]
    · rw [rest.nodeVars, first.nodeVars]
      rfl
    · rw [rest.produced, first.produced]
      simp
    · exact rest.distinct

theorem foldlM_add_eq_ok {start result : Progress} {nodes : List Node}
    (distinct : start.produced.Nodup) :
    nodes.foldlM (add wiring) start = .ok result ↔ Adds wiring start nodes result := by
  refine Outcome.foldlM_eq_ok (fun progress => progress.produced.Nodup) ?_ add_eq_ok
    Adds.distinct adds_cons distinct
  intro start result distinct
  constructor
  · intro adds
    obtain ⟨steps, vars, produced⟩ := result
    have stepsSame := adds.steps
    have varsSame := adds.nodeVars
    have producedSame := adds.produced
    simp only [List.filterMap_nil, List.append_nil, List.flatMap_nil, List.reverse_nil,
      List.nil_append] at stepsSame varsSame producedSame
    subst stepsSame varsSame producedSame
    rfl
  · rintro rfl
    exact ⟨by simp, by simp, rfl, by simp, distinct⟩

/-- What the stages of a successful compilation leave behind: the wires, the
order of the nodes, and the steps in that order. -/
structure Course (nodes : List Node) (edges : List Edge) (wiring : Wiring) (order : List Node)
    (compiled : Compiled) : Prop where
  built : Wiring.build nodes edges = .ok wiring
  ordered : wiring.order = .ok order
  lowered : ∀ node ∈ order, ∃ step, node.lower (wiring.incoming node.id) = .ok step
  distinct : (order.flatMap Node.outputs).Nodup
  steps : compiled.pipeline.steps = order.filterMap (step? wiring)
  nodeVars : compiled.nodeVars = Compile.nodeVars ∅ order

theorem named_eq_ok {name : String} {nodes : List Node} {edges : List Edge}
    {compiled : Compiled} :
    named name nodes edges = .ok compiled ↔
      compiled.pipeline.name = name ∧
        ∃ wiring order, Course nodes edges wiring order compiled := by
  simp only [named, Outcome.bind_eq_ok, Outcome.pure_eq_ok]
  have nothing : ({} : Progress).produced.Nodup := List.nodup_nil
  constructor
  · intro success
    obtain ⟨wiring, built, order, ordered, progress, folded, rfl⟩ := success
    have adds := (foldlM_add_eq_ok nothing).mp folded
    refine ⟨rfl, wiring, order, built, ordered, adds.lowered, ?_, ?_, adds.nodeVars⟩
    · simpa [adds.produced] using adds.distinct
    · simpa using adds.steps
  · intro course
    obtain ⟨rfl, wiring, order, course⟩ := course
    obtain ⟨⟨name, steps⟩, vars⟩ := compiled
    refine ⟨wiring, course.built, order, course.ordered,
      ⟨steps, vars, (order.flatMap Node.outputs).reverse⟩, ?_, rfl⟩
    rw [foldlM_add_eq_ok nothing]
    refine ⟨course.lowered, ?_, course.nodeVars, by simp, ?_⟩
    · simpa using course.steps
    · simpa using course.distinct

theorem exists_named (name : String) {nodes : List Node} {edges : List Edge} :
    (∃ compiled, named name nodes edges = .ok compiled) ↔
      ∃ wiring order, Wiring.build nodes edges = .ok wiring ∧ wiring.order = .ok order ∧
        (∀ node ∈ order, ∃ step, node.lower (wiring.incoming node.id) = .ok step) ∧
          (order.flatMap Node.outputs).Nodup := by
  simp only [named_eq_ok]
  constructor
  · intro success
    obtain ⟨compiled, -, wiring, order, course⟩ := success
    exact ⟨wiring, order, course.built, course.ordered, course.lowered, course.distinct⟩
  · intro stages
    obtain ⟨wiring, order, built, ordered, lowered, distinct⟩ := stages
    exact ⟨⟨⟨name, order.filterMap (step? wiring)⟩, nodeVars ∅ order⟩, rfl, wiring, order,
      built, ordered, lowered, distinct, rfl, rfl⟩

theorem step?_eq_some {node : Node} {step : Step} :
    step? wiring node = some step ↔
      node.lower (wiring.incoming node.id) = .ok (some step) := by
  unfold step?
  cases node.lower (wiring.incoming node.id) <;> simp

theorem nodeVars_perm (known : KeyMap String) {order otherOrder : List Node}
    (permutation : order.Perm otherOrder) : nodeVars known order = nodeVars known otherOrder := by
  refine permutation.foldl_eq' ?_ known
  intro first _ second _ vars
  by_cases same : first.id = second.id
  · rw [same]
    cases first.kind.producesVariable <;> cases second.kind.producesVariable <;> rfl
  · cases first.kind.producesVariable <;> cases second.kind.producesVariable <;>
      simp [KeyMap.insert_comm same]

namespace Course

variable {nodes : List Node} {edges : List Edge} {order : List Node} {compiled : Compiled}

theorem perm (course : Course nodes edges wiring order compiled) : order.Perm nodes :=
  Wiring.order_perm course.built course.ordered

/-- A node of the order is an input or has a step. -/
theorem isInput_or_step (course : Course nodes edges wiring order compiled) {node : Node}
    (member : node ∈ order) :
    node.kind = .input ∨
      ∃ step, step? wiring node = some step ∧ node.Lowers (wiring.incoming node.id) step := by
  obtain ⟨lowered, made⟩ := course.lowered node member
  cases lowered with
  | none => exact Or.inl (Node.lower_eq_none made)
  | some step => exact Or.inr ⟨step, step?_eq_some.mpr made, Node.lowers_of_lower made⟩

theorem node_of_step (course : Course nodes edges wiring order compiled)
    {before after : List Step} {step : Step}
    (split : compiled.pipeline.steps = before ++ step :: after) :
    ∃ earlier node later, order = earlier ++ node :: later ∧
      earlier.filterMap (step? wiring) = before ∧
        node.Lowers (wiring.incoming node.id) step := by
  rw [course.steps, List.filterMap_eq_append_iff] at split
  obtain ⟨front, back, divided, frontSteps, backSteps⟩ := split
  obtain ⟨inputs, node, later, rest, stepless, made, -⟩ :=
    List.filterMap_eq_cons_iff.mp backSteps
  refine ⟨front ++ inputs, node, later, ?_, ?_, ?_⟩
  · rw [divided, rest, List.append_assoc]
  · rw [List.filterMap_append, frontSteps, List.filterMap_eq_nil_iff.mpr stepless,
      List.append_nil]
  · exact Node.lowers_of_lower (step?_eq_some.mp made)

theorem exists_lowers (course : Course nodes edges wiring order compiled) {step : Step}
    (member : step ∈ compiled.pipeline.steps) :
    ∃ node ∈ nodes, node.Lowers (wiring.incoming node.id) step := by
  obtain ⟨before, after, split⟩ := List.append_of_mem member
  obtain ⟨earlier, node, later, divided, -, lowers⟩ := course.node_of_step split
  refine ⟨node, course.perm.mem_iff.mp ?_, lowers⟩
  rw [divided]
  exact List.mem_append_right earlier List.mem_cons_self

/-- What a step reads is an input of the graph, or an earlier step binds it. -/
theorem bound_before (course : Course nodes edges wiring order compiled)
    {before after : List Step} {step : Step}
    (split : compiled.pipeline.steps = before ++ step :: after) {name : String}
    (member : name ∈ step.inputs) :
    (∃ node ∈ nodes, node.kind = .input ∧ node.id = name) ∨ name ∈ before.flatMap Step.outputs := by
  obtain ⟨earlier, node, later, divided, rfl, lowers⟩ := course.node_of_step split
  have ordered := Wiring.order_ordered (Wiring.build_proper course.built) course.ordered
  obtain ⟨wire, atPort, rfl⟩ := List.mem_map.mp (lowers.supplied.perm.mem_iff.mp member)
  have offered := lowers.supplied.offered wire atPort
  obtain ⟨wireMember, arrives⟩ := List.mem_filter.mp (Lowering.mem_through.mp atPort).1
  have sourceEarlier : wire.source ∈ earlier :=
    ordered.sources earlier node later divided wire wireMember (by simpa using arrives)
  have sourceOrdered : wire.source ∈ order := by
    rw [divided]
    exact List.mem_append_left _ sourceEarlier
  have bound : wire.variable ∈ wire.source.outputs := Wire.variable_mem_outputs offered
  rcases course.isInput_or_step sourceOrdered with isInput | ⟨step, made, sourceLowers⟩
  · left
    refine ⟨wire.source, course.perm.mem_iff.mp sourceOrdered, isInput, ?_⟩
    simpa [Node.outputs, isInput, eq_comm] using bound
  · right
    rw [List.mem_flatMap]
    refine ⟨step, List.mem_filterMap.mpr ⟨wire.source, sourceEarlier, made⟩, ?_⟩
    rw [sourceLowers.outputs_eq]
    exact bound

/-- Part of an order binds the ids of its inputs and what its steps bind. -/
theorem outputs_perm_of_subset (course : Course nodes edges wiring order compiled)
    {part : List Node} (within : ∀ node ∈ part, node ∈ order) :
    (((part.filter fun node => node.kind = .input).map Node.id) ++
      (part.filterMap (step? wiring)).flatMap Step.outputs).Perm (part.flatMap Node.outputs) := by
  induction part with
  | nil => simp
  | cons node rest induction =>
      have tail := induction fun other member => within other (List.mem_cons_of_mem _ member)
      rcases course.isInput_or_step (within node List.mem_cons_self) with
        isInput | ⟨step, made, lowers⟩
      · have stepless : step? wiring node = none := by
          simp [step?, Node.lower_of_input isInput]
        have own : node.outputs = [node.id] := by
          simp [Node.outputs, isInput]
        simpa [isInput, stepless, own] using tail.cons node.id
      · have notInput : node.kind ≠ .input := by
          cases lowers <;> simp [*]
        simp only [List.filter_cons, notInput, decide_false, Bool.false_eq_true, if_false,
          List.filterMap_cons, made, List.flatMap_cons, lowers.outputs_eq]
        refine List.Perm.trans ?_ (tail.append_left node.outputs)
        rw [← List.append_assoc, ← List.append_assoc]
        exact List.perm_append_comm.append_right _

/-- The ids of the inputs and the variables of all steps are distinct. -/
theorem nodup_bound (course : Course nodes edges wiring order compiled) :
    (((nodes.filter fun node => node.kind = .input).map Node.id) ++
      compiled.pipeline.steps.flatMap Step.outputs).Nodup := by
  have inputs := (course.perm.filter fun node => node.kind = .input).map Node.id
  have outputs := course.outputs_perm_of_subset fun _ member => member
  rw [course.steps]
  exact ((inputs.symm.append_right _).trans outputs).nodup_iff.mpr course.distinct

theorem acyclic (course : Course nodes edges wiring order compiled) : wiring.Acyclic :=
  (Wiring.exists_order (Wiring.build_proper course.built)).mp ⟨order, course.ordered⟩

variable {others : List Edge} {other : Wiring} {otherOrder : List Node} {again : Compiled}

/-- The stages succeed on other edges that form no cycle and make of each node what
the edges make of it. -/
theorem exists_alike (course : Course nodes edges wiring order compiled)
    (otherBuilt : Wiring.build nodes others = .ok other) (acyclic : other.Acyclic)
    (same : ∀ node ∈ nodes,
      node.lower (other.incoming node.id) = node.lower (wiring.incoming node.id)) :
    ∃ other otherOrder, Wiring.build nodes others = .ok other ∧ other.order = .ok otherOrder ∧
      (∀ node ∈ otherOrder, ∃ step, node.lower (other.incoming node.id) = .ok step) ∧
        (otherOrder.flatMap Node.outputs).Nodup := by
  obtain ⟨otherOrder, ordered⟩ :=
    (Wiring.exists_order (Wiring.build_proper otherBuilt)).mpr acyclic
  have perm := Wiring.order_perm otherBuilt ordered
  have orders := course.perm.trans perm.symm
  refine ⟨other, otherOrder, otherBuilt, ordered, ?_, ?_⟩
  · intro node member
    rw [same node (perm.mem_iff.mp member)]
    exact course.lowered node (orders.mem_iff.mpr member)
  · exact (orders.flatMap_right Node.outputs).nodup_iff.mp course.distinct

/-- If two lists of edges make the same of each node, then they compile to the
same steps, in some order, and to the same variables of nodes. -/
theorem alike (course : Course nodes edges wiring order compiled)
    (otherCourse : Course nodes others other otherOrder again)
    (same : ∀ node ∈ nodes,
      node.lower (other.incoming node.id) = node.lower (wiring.incoming node.id)) :
    compiled.pipeline.steps.Perm again.pipeline.steps ∧ compiled.nodeVars = again.nodeVars := by
  have orders := course.perm.trans otherCourse.perm.symm
  have sameStep : ∀ node ∈ order, step? wiring node = step? other node := by
    intro node member
    simp only [step?, same node (course.perm.mem_iff.mp member)]
  constructor
  · rw [course.steps, otherCourse.steps, List.filterMap_congr sameStep]
    exact orders.filterMap _
  · rw [course.nodeVars, otherCourse.nodeVars]
    exact nodeVars_perm ∅ orders

end Course

end Compile

theorem exists_compiled_sample :
    ∃ compiled, compile Graph.sample.nodes Graph.sample.edges = .ok compiled :=
  Outcome.exists_ok (by decide +kernel)

theorem exists_compiled_adrift :
    ∃ compiled, compile Graph.adrift.nodes Graph.adrift.edges = .ok compiled :=
  Outcome.exists_ok (by decide +kernel)

end Workflow
