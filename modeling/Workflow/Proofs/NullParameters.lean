import Workflow.Proofs.Lookup
import Workflow.Proofs.Outcome
import Workflow.Compile.Basic
import Workflow.Validation.Basic

/-!
# Null parameters of graphs and pipelines

A parameter that is a JSON `null` is as good as none.  Wiring and ordering know
nodes by their ids, whatever their parameters; each stage of lowering reads
parameters through `Params.value?`; and the checks of a step pass nulls over.  So
compiling commutes with taking the nulls away, and validation does not see them.
-/

namespace Workflow

open Lowering

namespace Params

/-- The parameters that are not `null`. -/
def withoutNulls (params : Params) : Params :=
  params.filter fun _ value => !value.isNull

variable {name : String} {value : Json}

theorem get?_withoutNulls (params : Params) (name : String) :
    params.withoutNulls.get? name = params.value? name :=
  KeyMap.get?_filter _

@[simp] theorem value?_withoutNulls (params : Params) (name : String) :
    params.withoutNulls.value? name = params.value? name := by
  rw [value?, get?_withoutNulls, value?, Option.filter_filter]
  simp

theorem withoutNulls_withoutNulls (params : Params) :
    params.withoutNulls.withoutNulls = params.withoutNulls := by
  apply KeyMap.ext_get?
  intro name
  rw [get?_withoutNulls, value?_withoutNulls, get?_withoutNulls]

theorem filter_withoutNulls (params : Params) (keep : String → Bool) :
    params.withoutNulls.filter (fun name _ => keep name) =
      Params.withoutNulls (params.filter fun name _ => keep name) := by
  apply KeyMap.ext_get?
  intro name
  rw [KeyMap.get?_filter_name, get?_withoutNulls, get?_withoutNulls, value?, value?,
    KeyMap.get?_filter_name]
  split <;> rfl

theorem erase_withoutNulls (params : Params) (name : String) :
    params.withoutNulls.erase name = Params.withoutNulls (params.erase name) :=
  filter_withoutNulls params fun key => key ≠ name

theorem insert_withoutNulls (params : Params) (name : String) (present : ¬value.isNull) :
    params.withoutNulls.insert name value = Params.withoutNulls (params.insert name value) := by
  apply KeyMap.ext_get?
  intro key
  rw [KeyMap.get?_insert, get?_withoutNulls, get?_withoutNulls, value?, value?,
    KeyMap.get?_insert]
  split
  · simp [Option.filter, present]
  · rfl

end Params

section Renewed

variable (renew : Node → Node) (keeps : ∀ node, (renew node).id = node.id)

def Wire.renewed (wire : Wire) : Wire :=
  { wire with source := renew wire.source, target := renew wire.target }

def Pending.renewed (p : Pending) : Pending :=
  { p with node := renew p.node }

namespace Wiring

/-- The wiring with its nodes changed, but for their ids. -/
def renewed (wiring : Wiring) : Wiring :=
  ⟨wiring.nodes.map renew, wiring.wires.map (Wire.renewed renew)⟩

include keeps

theorem repeatedId?_map (nodes : List Node) (seen : List String) :
    repeatedId? (nodes.map renew) seen = repeatedId? nodes seen := by
  induction nodes generalizing seen with
  | nil => rfl
  | cons node nodes induction =>
      simp only [List.map_cons, repeatedId?, keeps, induction]

theorem resolve_map (nodes : List Node) (id : String) (index : Nat) :
    resolve (nodes.map renew) id index = (resolve nodes id index).map renew := by
  have found : findNode? (nodes.map renew) id = (findNode? nodes id).map renew := by
    simp only [findNode?, List.find?_map, Function.comp_def, keeps]
  unfold resolve
  rw [found]
  cases findNode? nodes id <;> rfl

theorem wire_map (nodes : List Node) (index : Nat) (edge : Edge) :
    wire (nodes.map renew) index edge = (wire nodes index edge).map (Wire.renewed renew) := by
  simp only [wire, resolve_map renew keeps, Outcome.map_bind, Outcome.bind_map, keeps]
  refine congrArg _ (funext fun source => congrArg _ (funext fun target => ?_))
  split <;> rfl

theorem wireAll_map (nodes : List Node) (index : Nat) (edges : List Edge) :
    wireAll (nodes.map renew) index edges =
      (wireAll nodes index edges).map (List.map (Wire.renewed renew)) := by
  induction edges generalizing index with
  | nil => rfl
  | cons edge edges induction =>
      simp only [wireAll, wire_map renew keeps, induction, Outcome.map_bind, Outcome.bind_map]
      rfl

theorem build_map (nodes : List Node) (edges : List Edge) :
    build (nodes.map renew) edges = (build nodes edges).map (renewed renew) := by
  unfold build
  rw [repeatedId?_map renew keeps, wireAll_map renew keeps]
  cases repeatedId? nodes [] with
  | some id => rfl
  | none => cases wireAll nodes 0 edges <;> rfl

theorem incoming_renewed (wiring : Wiring) (id : String) :
    (wiring.renewed renew).incoming id = (wiring.incoming id).map (Wire.renewed renew) := by
  simp [incoming, renewed, List.filter_map, Function.comp_def, Wire.renewed, keeps]

theorem pending_renewed (wiring : Wiring) :
    (wiring.renewed renew).pending = wiring.pending.map (Pending.renewed renew) := by
  have rank : ∀ id, (wiring.renewed renew).rank? id = wiring.rank? id := by
    intro id
    simp only [rank?, renewed, List.find?_map, Function.comp_def, Wire.touches, Wire.renewed,
      keeps, Option.map_map]
  simp only [pending, incoming_renewed renew keeps, List.length_map, rank]
  simp [renewed, Pending.renewed, keeps, Function.comp_def]

theorem next?_renewed (waiting : List Pending) :
    Pending.next? (waiting.map (Pending.renewed renew)) =
      (Pending.next? waiting).map (Pending.renewed renew) := by
  induction waiting with
  | nil => rfl
  | cons p rest induction =>
      have unmet : (Pending.renewed renew p).unmet = p.unmet := rfl
      have before : ∀ q,
          (Pending.renewed renew q).before (Pending.renewed renew p) = q.before p := by
        intro q
        unfold Pending.before Pending.renewed
        dsimp only
        rw [keeps, keeps]
      by_cases free : p.unmet = 0
      · simp only [List.map_cons, Pending.next?, induction, unmet]
        cases Pending.next? rest with
        | none => simp [free]
        | some q => by_cases earlier : q.before p <;> simp [before, earlier, free]
      · simp [Pending.next?, unmet, free, induction]

theorem release_renewed (wiring : Wiring) (done : Node) (waiting : List Pending) :
    (wiring.renewed renew).release (renew done) (waiting.map (Pending.renewed renew)) =
      (wiring.release done waiting).map (Pending.renewed renew) := by
  simp [release, renewed, List.filter_map, List.countP_map, Function.comp_def, Wire.renewed,
    Pending.renewed, keeps]

theorem drain_renewed (wiring : Wiring) (turns : Nat) (waiting : List Pending) :
    (wiring.renewed renew).drain turns (waiting.map (Pending.renewed renew)) =
      ((wiring.drain turns waiting).1.map renew,
        (wiring.drain turns waiting).2.map (Pending.renewed renew)) := by
  induction turns generalizing waiting with
  | zero => rfl
  | succ turns induction =>
      simp only [drain, next?_renewed renew keeps]
      cases Pending.next? waiting with
      | none => rfl
      | some p =>
          have released := release_renewed renew keeps wiring p.node waiting
          simp only [Option.map_some, Pending.renewed] at released ⊢
          rw [released]
          simp only [induction]
          rfl

theorem order_renewed (wiring : Wiring) :
    (wiring.renewed renew).order = wiring.order.map (List.map renew) := by
  unfold order
  rw [pending_renewed renew keeps, show (wiring.renewed renew).nodes.length = wiring.nodes.length
    from List.length_map _, drain_renewed renew keeps]
  obtain ⟨nodes, _ | ⟨p, left⟩⟩ := wiring.drain wiring.nodes.length wiring.pending
  · rfl
  · simp [Except.map, Pending.renewed, keeps, Function.comp_def]

end Wiring

end Renewed

def Node.withoutNulls (node : Node) : Node :=
  { node with parameters := node.parameters.withoutNulls }

def Wire.withoutNulls (wire : Wire) : Wire :=
  wire.renewed Node.withoutNulls

/-- The step with the parameters for its provider that are not `null`. -/
def Step.withoutNulls : Step → Step
  | generate s => generate { s with params := s.params.withoutNulls }
  | transform s => transform { s with params := s.params.withoutNulls }
  | save s => save { s with params := s.params.withoutNulls }
  | vision s => vision { s with params := s.params.withoutNulls }
  | text s => text { s with params := s.params.withoutNulls }
  | fanOut s => fanOut s
  | collect s => collect s
  | router s => router s

namespace Step

variable (step : Step)

@[simp] theorem kind_withoutNulls : step.withoutNulls.kind = step.kind := by
  cases step <;> rfl

@[simp] theorem node_withoutNulls : step.withoutNulls.node = step.node := by
  cases step <;> rfl

@[simp] theorem outputs_withoutNulls : step.withoutNulls.outputs = step.outputs := by
  cases step <;> rfl

@[simp] theorem provider?_withoutNulls : step.withoutNulls.provider? = step.provider? := by
  cases step <;> rfl

@[simp] theorem deferred?_withoutNulls : step.withoutNulls.deferred? = step.deferred? := by
  cases step <;> rfl

@[simp] theorem params?_withoutNulls :
    step.withoutNulls.params? = step.params?.map Params.withoutNulls := by
  cases step <;> rfl

theorem withoutNulls_withoutNulls : step.withoutNulls.withoutNulls = step.withoutNulls := by
  cases step <;> simp only [withoutNulls, Params.withoutNulls_withoutNulls]

end Step

namespace Node

variable (node : Node)

@[simp] theorem param?_withoutNulls (name : String) :
    node.withoutNulls.param? name = node.param? name :=
  node.parameters.value?_withoutNulls name

@[simp] theorem textParam?_withoutNulls (name : String) :
    node.withoutNulls.textParam? name = node.textParam? name := by
  simp only [textParam?, param?_withoutNulls]

@[simp] theorem firstTextParam?_withoutNulls (names : List String) :
    node.withoutNulls.firstTextParam? names = node.firstTextParam? names := by
  induction names with
  | nil => rfl
  | cons name names induction => simp only [firstTextParam?, textParam?_withoutNulls, induction]

end Node

namespace Lowering

variable (node : Node)

@[simp] theorem requiredText_withoutNulls (name : String) (names : List String) :
    requiredText node.withoutNulls name names = requiredText node name names := by
  simp only [requiredText, Node.firstTextParam?_withoutNulls]
  rfl

@[simp] theorem countParam?_withoutNulls (name : String) :
    countParam? node.withoutNulls name = countParam? node name := by
  simp only [countParam?, Node.param?_withoutNulls]
  rfl

@[simp] theorem slotCount_withoutNulls : slotCount node.withoutNulls = slotCount node := by
  simp only [slotCount, countParam?_withoutNulls]
  rfl

@[simp] theorem choice_withoutNulls (name : String) (first second : String × α) :
    choice node.withoutNulls name first second = choice node name first second := by
  simp only [choice, Node.textParam?_withoutNulls]
  rfl

@[simp] theorem arrayProperty?_withoutNulls (mode : FanOutMode) :
    arrayProperty? node.withoutNulls mode = arrayProperty? node mode := by
  simp only [arrayProperty?, Node.firstTextParam?_withoutNulls]
  rfl

@[simp] theorem without_withoutNulls (names : List String) :
    without node.withoutNulls names = (without node names).withoutNulls :=
  node.parameters.filter_withoutNulls fun name => !names.contains name

@[simp] theorem sourceVariable_withoutNulls (wire : Wire) :
    sourceVariable wire.withoutNulls = sourceVariable wire := by
  simp only [sourceVariable, Wire.withoutNulls, Wire.renewed, slotCount_withoutNulls,
    Node.textParam?_withoutNulls]
  rfl

variable (arriving : List Wire)

@[simp] theorem singleInput?_withoutNulls (accepts : TargetPort → Bool) (port : String) :
    singleInput? node.withoutNulls (arriving.map Wire.withoutNulls) accepts port =
      singleInput? node arriving accepts port := by
  have matching : (arriving.map Wire.withoutNulls).filter (fun wire => accepts wire.arrives) =
      (arriving.filter fun wire => accepts wire.arrives).map Wire.withoutNulls := by
    rw [List.filter_map]
    rfl
  unfold singleInput?
  rw [matching]
  generalize (arriving.filter fun wire => accepts wire.arrives) = found
  rcases found with _ | ⟨wire, _ | ⟨other, rest⟩⟩
  · rfl
  · simp only [List.map_cons, List.map_nil, sourceVariable_withoutNulls]
  · rfl

@[simp] theorem singleInput_withoutNulls (accepts : TargetPort → Bool) (port message : String) :
    singleInput node.withoutNulls (arriving.map Wire.withoutNulls) accepts port message =
      singleInput node arriving accepts port message := by
  simp only [singleInput, singleInput?_withoutNulls]
  rfl

@[simp] theorem references_withoutNulls :
    references node.withoutNulls (arriving.map Wire.withoutNulls) = references node arriving := by
  have each : ∀ deferred wire, addReference node.withoutNulls deferred wire.withoutNulls =
      addReference node deferred wire := by
    intro deferred wire
    simp only [addReference, sourceVariable_withoutNulls]
    rfl
  simp only [references, List.foldlM_map, each]

@[simp] theorem visionInputs_withoutNulls (image context : Option String) :
    visionInputs node.withoutNulls image context = visionInputs node image context := by
  cases image <;> cases context <;> rfl

@[simp] theorem gathered_withoutNulls :
    (arriving.map Wire.withoutNulls).foldlM (gather node.withoutNulls) {} =
      arriving.foldlM (gather node) {} := by
  have each : ∀ gathered wire, gather node.withoutNulls gathered wire.withoutNulls =
      gather node gathered wire := by
    intro gathered wire
    simp only [gather, sourceVariable_withoutNulls]
    rfl
  simp only [List.foldlM_map, each]

theorem generate_withoutNulls :
    generate node.withoutNulls (arriving.map Wire.withoutNulls) =
      (generate node arriving).map Step.withoutNulls := by
  simp only [generate, requiredText_withoutNulls, references_withoutNulls, without_withoutNulls,
    Outcome.map_bind]
  rfl

theorem transform_withoutNulls :
    transform node.withoutNulls (arriving.map Wire.withoutNulls) =
      (transform node arriving).map Step.withoutNulls := by
  simp only [transform, requiredText_withoutNulls, singleInput_withoutNulls,
    references_withoutNulls, without_withoutNulls, Outcome.map_bind]
  rfl

theorem save_withoutNulls :
    save node.withoutNulls (arriving.map Wire.withoutNulls) =
      (save node arriving).map Step.withoutNulls := by
  simp only [save, singleInput_withoutNulls, Node.textParam?_withoutNulls, without_withoutNulls,
    Outcome.map_bind]
  rfl

theorem vision_withoutNulls :
    vision node.withoutNulls (arriving.map Wire.withoutNulls) =
      (vision node arriving).map Step.withoutNulls := by
  simp only [vision, requiredText_withoutNulls, singleInput?_withoutNulls,
    visionInputs_withoutNulls, references_withoutNulls, without_withoutNulls, Outcome.map_bind]
  rfl

theorem text_withoutNulls :
    text node.withoutNulls (arriving.map Wire.withoutNulls) =
      (text node arriving).map Step.withoutNulls := by
  simp only [text, requiredText_withoutNulls, singleInput?_withoutNulls, references_withoutNulls,
    without_withoutNulls, Outcome.map_bind]
  rfl

theorem fanOut_withoutNulls :
    fanOut node.withoutNulls (arriving.map Wire.withoutNulls) =
      (fanOut node arriving).map Step.withoutNulls := by
  simp only [fanOut, singleInput_withoutNulls, choice_withoutNulls, slotCount_withoutNulls,
    arrayProperty?_withoutNulls, Outcome.map_bind]
  rfl

theorem collect_withoutNulls :
    collect node.withoutNulls (arriving.map Wire.withoutNulls) =
      (collect node arriving).map Step.withoutNulls := by
  simp only [collect, gathered_withoutNulls, choice_withoutNulls, List.isEmpty_map,
    Outcome.map_bind]
  refine congrArg _ (funext fun gathered => ?_)
  split
  · rfl
  · rw [Outcome.map_bind]
    rfl

theorem router_withoutNulls :
    router node.withoutNulls (arriving.map Wire.withoutNulls) =
      (router node arriving).map Step.withoutNulls := by
  simp only [router, singleInput_withoutNulls, choice_withoutNulls, countParam?_withoutNulls,
    Node.textParam?_withoutNulls, Outcome.map_bind]
  rfl

end Lowering

/-- A node without nulls becomes the same step, but for its nulls. -/
theorem Node.lower_withoutNulls (node : Node) (arriving : List Wire) :
    node.withoutNulls.lower (arriving.map Wire.withoutNulls) =
      (node.lower arriving).map (Option.map Step.withoutNulls) := by
  have step : ∀ made : Except CompileError Step,
      (made.map Step.withoutNulls).map some =
        (made.map some).map (Option.map Step.withoutNulls) := by
    intro made
    cases made <;> rfl
  have kind : node.withoutNulls.kind = node.kind := rfl
  unfold lower
  rw [kind]
  cases node.kind with
  | input => rfl
  | generator => simp only [generate_withoutNulls, step]
  | transform => simp only [transform_withoutNulls, step]
  | save => simp only [save_withoutNulls, step]
  | vision => simp only [vision_withoutNulls, step]
  | text => simp only [text_withoutNulls, step]
  | fanOut => simp only [fanOut_withoutNulls, step]
  | collect => simp only [collect_withoutNulls, step]
  | router => simp only [router_withoutNulls, step]

def Graph.withoutNulls (graph : Graph) : Graph :=
  { graph with nodes := graph.nodes.map Node.withoutNulls }

def Pipeline.withoutNulls (pipeline : Pipeline) : Pipeline :=
  { pipeline with steps := pipeline.steps.map Step.withoutNulls }

def Compiled.withoutNulls (compiled : Compiled) : Compiled :=
  { compiled with pipeline := compiled.pipeline.withoutNulls }

theorem Pipeline.withoutNulls_withoutNulls (pipeline : Pipeline) :
    pipeline.withoutNulls.withoutNulls = pipeline.withoutNulls := by
  simp [withoutNulls, Step.withoutNulls_withoutNulls]

namespace Compile

def Progress.withoutNulls (progress : Progress) : Progress :=
  { progress with steps := progress.steps.map Step.withoutNulls }

theorem add_withoutNulls (wiring : Wiring) (progress : Progress) (node : Node) :
    add (wiring.renewed Node.withoutNulls) progress.withoutNulls node.withoutNulls =
      (add wiring progress node).map Progress.withoutNulls := by
  have arriving : (wiring.renewed Node.withoutNulls).incoming node.withoutNulls.id =
      (wiring.incoming node.id).map Wire.withoutNulls :=
    Wiring.incoming_renewed Node.withoutNulls (fun _ => rfl) wiring node.id
  have binds : ∀ step : Option Step,
      bound node.withoutNulls (step.map Step.withoutNulls) = bound node step := by
    intro step
    cases step with
    | none => rfl
    | some step => exact step.outputs_withoutNulls
  have steps : ∀ step : Option Step,
      progress.withoutNulls.steps ++ (step.map Step.withoutNulls).toList =
        (progress.steps ++ step.toList).map Step.withoutNulls := by
    intro step
    cases step <;> simp [Progress.withoutNulls]
  simp only [add, arriving, Node.lower_withoutNulls, binds, steps, Outcome.map_bind,
    Outcome.bind_map]
  rfl

theorem foldlM_add_withoutNulls (wiring : Wiring) (order : List Node) (progress : Progress) :
    (order.map Node.withoutNulls).foldlM (add (wiring.renewed Node.withoutNulls))
        progress.withoutNulls =
      (order.foldlM (add wiring) progress).map Progress.withoutNulls := by
  induction order generalizing progress with
  | nil => rfl
  | cons node order induction =>
      rw [List.map_cons, List.foldlM_cons, List.foldlM_cons, add_withoutNulls]
      cases add wiring progress node with
      | error problem => rfl
      | ok next => exact induction next

theorem named_withoutNulls (name : String) (nodes : List Node) (edges : List Edge) :
    named name (nodes.map Node.withoutNulls) edges =
      (named name nodes edges).map Compiled.withoutNulls := by
  have order : ∀ wiring : Wiring, (wiring.renewed Node.withoutNulls).order =
      wiring.order.map (List.map Node.withoutNulls) :=
    Wiring.order_renewed Node.withoutNulls fun _ => rfl
  have folded : ∀ (wiring : Wiring) (order : List Node),
      (order.map Node.withoutNulls).foldlM (add (wiring.renewed Node.withoutNulls)) {} =
        (order.foldlM (add wiring) {}).map Progress.withoutNulls :=
    fun wiring order => foldlM_add_withoutNulls wiring order {}
  simp only [named, Wiring.build_map Node.withoutNulls fun _ => rfl, order, folded,
    Outcome.map_bind, Outcome.bind_map]
  rfl

end Compile

/-- A graph without nulls compiles to the same pipeline, but for its nulls, or not at
all for the same reason. -/
theorem Graph.compile_withoutNulls (graph : Graph) (name : String) :
    graph.withoutNulls.compile name = (graph.compile name).map Compiled.withoutNulls :=
  Compile.named_withoutNulls _ graph.nodes graph.edges

namespace Validation

theorem supplied_withoutNulls (step : Step) : supplied step.withoutNulls = supplied step := by
  cases step <;> rfl

theorem providerIssues_withoutNulls (registry : Registry) (options : ValidatorOptions)
    (index : Nat) (step : Step) (provider : String) (params : Params) :
    providerIssues registry options index step.withoutNulls provider params.withoutNulls =
      providerIssues registry options index step provider params := by
  have present : ∀ schema issue, (params.withoutNulls.entries.filterMap fun entry =>
        paramIssue? options schema issue provider entry.1 entry.2) =
      params.entries.filterMap fun entry =>
        paramIssue? options schema issue provider entry.1 entry.2 := by
    intro schema issue
    rw [show params.withoutNulls.entries = params.entries.filter fun entry => !entry.2.isNull
      from rfl, List.filterMap_filter]
    apply List.filterMap_congr
    intro entry _
    cases null : entry.2.isNull <;> simp [paramIssue?, null]
  have absent : ∀ issue, missingIssue? options step.withoutNulls params.withoutNulls issue
      provider = missingIssue? options step params issue provider := by
    intro issue
    funext name
    simp only [missingIssue?, Params.value?_withoutNulls, supplied_withoutNulls]
  simp only [providerIssues, Step.kind_withoutNulls, present, absent]

theorem stepIssues_withoutNulls (registry : Registry) (options : ValidatorOptions)
    (index : Nat) (step : Step) :
    stepIssues registry options index step.withoutNulls =
      stepIssues registry options index step := by
  unfold stepIssues
  simp only [Step.kind_withoutNulls, Step.provider?_withoutNulls, Step.params?_withoutNulls]
  cases step.provider? with
  | none => rfl
  | some provider =>
      cases step.params? with
      | none => rfl
      | some params => simp only [Option.map_some, providerIssues_withoutNulls]

theorem issuesFrom_withoutNulls (registry : Registry) (options : ValidatorOptions)
    (index : Nat) (steps : List Step) :
    issuesFrom registry options index (steps.map Step.withoutNulls) =
      issuesFrom registry options index steps := by
  induction steps generalizing index with
  | nil => rfl
  | cons step steps induction =>
      simp only [List.map_cons, issuesFrom, stepIssues_withoutNulls, induction]

end Validation

theorem Pipeline.validate_withoutNulls (pipeline : Pipeline) (registry : Registry)
    (options : ValidatorOptions) :
    pipeline.withoutNulls.validate registry options = pipeline.validate registry options :=
  Validation.issuesFrom_withoutNulls registry options 0 pipeline.steps

end Workflow
