import Workflow.Proofs.Requests
import Workflow.Proofs.WellFormed
import Workflow.Run.Script

/-!
# How parameters reach providers

Between a node and its provider, parameters are only ever taken away, but for the
prompt and the destination of a save node.  What is taken away is what names the
provider, what the engine keeps for itself, and the settings of overlays that
arrive.
-/

namespace Workflow

open Lowering

variable {node : Node} {arriving : List Wire} {step : Step} {name : String}

namespace Node

/-- The first of the names under which the node has a text. -/
def firstNamed (node : Node) (names : List String) : List String :=
  (names.find? fun name => (node.textParam? name).isSome).toList

/-- The parameters that a node of its kind gives up for its provider; a save node
also gives up its destination. -/
def consumed (node : Node) : List String :=
  match node.kind with
  | .generator => node.firstNamed ["generator", "provider"]
  | .transform => node.firstNamed ["operation", "op"]
  | .vision | .text => node.firstNamed ["provider"]
  | .save => ["destination", "provider"]
  | .input | .fanOut | .collect | .router => []

theorem firstTextParam?_name {names : List String} {text : String}
    (found : node.firstTextParam? names = some (name, text)) :
    [name] = node.firstNamed names := by
  induction names with
  | nil => cases found
  | cons first names induction =>
      unfold firstNamed at induction ⊢
      cases given : node.textParam? first with
      | none =>
          rw [firstTextParam?, given] at found
          rw [List.find?_cons_of_neg (by simp [given])]
          exact induction found
      | some value =>
          simp only [firstTextParam?, given, Option.some.injEq, Prod.mk.injEq] at found
          rw [List.find?_cons_of_pos (by simp [given]), found.1]
          rfl

theorem requiredText_name {first text : String} {names : List String}
    (required : requiredText node first names = .ok (name, text)) :
    [name] = node.firstNamed (first :: names) := by
  unfold requiredText at required
  split at required
  · rename_i found
    obtain rfl := Except.ok.inj required
    exact firstTextParam?_name found
  · cases required

/-- A step that asks a provider has the parameters of its node but those that the
node gives up. -/
theorem Lowers.params_eq (lowers : node.Lowers arriving step) {provider : String}
    (asks : step.provider? = some provider) :
    step.params? = some (without node node.consumed) := by
  cases lowers with
  | generate kind required | transform kind required | vision kind required
  | text kind required =>
      unfold consumed
      rw [kind, ← requiredText_name required]
      rfl
  | save kind =>
      unfold consumed
      rw [kind]
      rfl
  | fanOut | collect | router => cases asks

theorem get?_without (node : Node) (names : List String) :
    (without node names).get? name = if name ∈ names then none else node.parameters.get? name := by
  rw [without, KeyMap.get?_filter_name]
  by_cases listed : name ∈ names <;> simp [listed]

end Node

namespace Lowering

theorem overlay?_isSome (wire : Wire) : (overlay? wire).isSome = wire.arrives.isOverlay := by
  unfold overlay?
  cases wire.arrives <;> rfl

theorem overlays_eq_nil {deferred : Deferred} (resolved : references node arriving = .ok deferred) :
    deferred.overlays = [] ↔ ∀ port ∈ arriving.map Wire.arrives, ¬port.isOverlay := by
  obtain ⟨listed, extended, rfl⟩ := references_eq_ok.mp resolved
  have unsorted : listed.overlays = arriving.filterMap overlay? := extended.overlays
  rw [← List.length_eq_zero_iff, ascending_perm.length_eq, List.length_eq_zero_iff, unsorted,
    List.filterMap_eq_nil_iff, List.forall_mem_map]
  simp only [← overlay?_isSome, Option.not_isSome_iff_eq_none]

end Lowering

namespace Node

/-- Only overlays that arrive make a step keep their settings from its provider, and
a save node takes them for its input. -/
theorem Lowers.overlays_eq_nil (lowers : node.Lowers arriving step) {provider : String}
    (asks : step.provider? = some provider) :
    (step.deferred?.getD {}).overlays = [] ↔
      node.kind = .save ∨ ∀ port ∈ arriving.map Wire.arrives, ¬port.isOverlay := by
  cases lowers with
  | generate kind _ resolved | transform kind _ _ resolved | vision kind _ _ _ _ resolved
  | text kind _ _ resolved =>
      rw [kind]
      simpa [Step.deferred?] using Lowering.overlays_eq_nil resolved
  | save kind => simp [kind, Step.deferred?]
  | fanOut | collect | router => cases asks

end Node

/-- What a request for a step has of the parameters of the step's node, at which
edges arrive at the given ports. -/
structure Request.Conveys (request : Request) (node : Node) (ports : List TargetPort)
    (step : Step) : Prop where
  unmarked : ∀ name, (request.params.get? name).isSome →
    ¬Text.startsWith Resolve.internalMarker name ∧ name ≠ "prePrompt"
  kept : ∀ name, name ∉ ["prompt", "prePrompt", "overlays"] →
    (node.kind = .save → name ≠ "destination") →
      request.params.get? name =
        if Text.startsWith Resolve.internalMarker name ∨ name ∈ node.consumed then none
        else node.parameters.get? name
  overlays : request.params.get? "overlays" =
    if node.kind ≠ .save ∧ ∃ port ∈ ports, port.isOverlay then none
    else node.parameters.get? "overlays"
  destination : node.kind = .save →
    ∃ s, step = .save s ∧ request.params.get? "destination" = some (.string s.destination)

namespace Node

theorem Lowers.kind_eq_save_iff (lowers : node.Lowers arriving step) :
    step.kind = .save ↔ node.kind = .save := by
  cases lowers <;> simp_all [Step.kind]

theorem overlays_notMem_consumed (node : Node) : "overlays" ∉ node.consumed := by
  have listed : ∀ names, "overlays" ∉ names → "overlays" ∉ node.firstNamed names := by
    intro names absent member
    apply absent
    exact List.mem_of_find?_eq_some (Option.mem_toList.mp member)
  unfold consumed
  cases node.kind with
  | generator | transform | vision | text => exact listed _ (by decide)
  | save | input | fanOut | collect | router => simp

variable {index : Nat} {request : Request}

theorem Lowers.get?_params (lowers : node.Lowers arriving step) (asks : step.Asks index request)
    (notPrompt : name ≠ "prompt") (other : node.kind = .save → name ≠ "destination") :
    request.params.get? name = if step.withholds name then none
      else if name ∈ node.consumed then none else node.parameters.get? name := by
  have has := lowers.params_eq asks.provider
  rw [asks.params name notPrompt,
    Step.get?_requestParams has fun kind => other (lowers.kind_eq_save_iff.mp kind),
    get?_without]

theorem Lowers.conveys (lowers : node.Lowers arriving step) (asks : step.Asks index request) :
    request.Conveys node (arriving.map Wire.arrives) step := by
  constructor
  · intro name present
    exact asks.unmarked present
  · intro name other notDestination
    simp only [List.mem_cons, List.not_mem_nil, or_false, not_or] at other
    have withheld : step.withholds name ↔ Text.startsWith Resolve.internalMarker name := by
      rw [Step.withholds_iff]
      simp [other]
    rw [lowers.get?_params asks other.1 notDestination]
    by_cases starts : Text.startsWith Resolve.internalMarker name <;> simp [withheld, starts]
  · have withheld : step.withholds "overlays" ↔
        node.kind ≠ .save ∧ ∃ port ∈ arriving.map Wire.arrives, port.isOverlay := by
      rw [Step.withholds_iff, ne_eq, lowers.overlays_eq_nil asks.provider]
      simp [Step.not_marked "overlays"]
    rw [lowers.get?_params asks (by decide) fun _ => by decide]
    simp only [withheld, overlays_notMem_consumed, if_false]
  · intro isSave
    have kind := lowers.kind_eq_save_iff.mpr isSave
    cases step with
    | save s => exact ⟨s, rfl, asks.destination⟩
    | generate _ | transform _ | vision _ | text _ | fanOut _ | collect _ | router _ => cases kind

end Node

/-- Every request of a run of a compiled pipeline is made for a step whose node it
conveys the parameters of. -/
theorem execute_conveys_parameters {nodes : List Node} {edges : List Edge} {compiled : Compiled}
    (success : compile nodes edges = .ok compiled) (config : RunConfig) (host : Host σ)
    (initial : KeyMap Value) (state : σ) {request : Request}
    (made : request ∈ (compiled.pipeline.execute config host initial state).2.requests) :
    ∃ node ∈ nodes, ∃ step, node.id = request.node ∧
      compiled.pipeline.steps[request.stepIndex]? = some step ∧
        request.Conveys node (Edge.portsAt edges node.id) step := by
  obtain ⟨-, wiring, order, course⟩ := Compile.named_eq_ok.mp success
  obtain ⟨step, before, found, -, acts⟩ := Pipeline.mem_requests_of_execute made
  have asks := Run.action_asks acts
  obtain ⟨node, member, lowers⟩ := course.exists_lowers (List.mem_of_getElem? found)
  refine ⟨node, member, step, ?_, found, ?_⟩
  · rw [asks.node, lowers.node_eq]
  · rw [← Wiring.arrives_incoming course.built]
    exact lowers.conveys asks

/-- A photo that is laid over itself and then kept.  Both steps have settings for
overlays, and an edge arrives at the port of an overlay of both. -/
def Graph.keepsake : Graph :=
  ({} : Graph)
    |>.input "photo"
    |>.addNode { id := "double", kind := .transform, parameters := .ofList [
        ("operation", .string "blend"), ("op", .string "darken"), ("strength", .null),
        ("__draft", .bool true), ("overlays", .array [.bool true])] }
    |>.addNode { id := "keep", kind := .save, parameters := .ofList [
        ("destination", .string "album"), ("overlays", .array [.bool true])] }
    |>.edge "photo" "double"
    |>.edgeTo "photo" "double" "overlays[0]"
    |>.edgeTo "double" "keep" "overlays[0]"

theorem exists_compiled_keepsake :
    ∃ compiled, compile Graph.keepsake.nodes Graph.keepsake.edges = .ok compiled :=
  Outcome.exists_ok (by decide +kernel)

/-- The transformation's provider gets no settings for overlays; its second name and
its null are conveyed. -/
theorem keepsake_conveys_parameters :
    ∃ compiled request, compile Graph.keepsake.nodes Graph.keepsake.edges = .ok compiled ∧
      request ∈ (compiled.pipeline.execute {} (Script.host ({} : Script).reply ∅)
        (.single "photo" (.image {})) {}).2.requests ∧
        request.params = .ofList [("op", .string "darken"), ("strength", .null)] ∧
          ∃ node ∈ Graph.keepsake.nodes, ∃ step, node.id = request.node ∧
            compiled.pipeline.steps[request.stepIndex]? = some step ∧
              request.Conveys node (Edge.portsAt Graph.keepsake.edges node.id) step := by
  let host := Script.host ({} : Script).reply ∅
  obtain ⟨compiled, success⟩ := exists_compiled_keepsake
  have asks : (compile Graph.keepsake.nodes Graph.keepsake.edges).toOption.all fun compiled =>
      (compiled.pipeline.execute {} host (.single "photo" (.image {})) {}).2.requests.any
        fun request =>
          request.params = .ofList [("op", .string "darken"), ("strength", .null)] := by
    decide +kernel
  rw [success] at asks
  obtain ⟨request, made, params⟩ := List.any_eq_true.mp asks
  exact ⟨compiled, request, success, made, of_decide_eq_true params,
    execute_conveys_parameters success {} host (.single "photo" (.image {})) {} made⟩

/-- The provider of the save node gets its settings for overlays, though the node has
an edge at the port of an overlay. -/
theorem keepsake_conveys_overlays :
    ∃ compiled request, compile Graph.keepsake.nodes Graph.keepsake.edges = .ok compiled ∧
      request ∈ (compiled.pipeline.execute {} (Script.host ({} : Script).reply ∅)
        (.single "photo" (.image {})) {}).2.requests ∧
        (∃ port ∈ Edge.portsAt Graph.keepsake.edges request.node, port.isOverlay) ∧
          request.params.get? "overlays" = some (.array [.bool true]) := by
  let host := Script.host ({} : Script).reply ∅
  obtain ⟨compiled, success⟩ := exists_compiled_keepsake
  have asks : (compile Graph.keepsake.nodes Graph.keepsake.edges).toOption.all fun compiled =>
      (compiled.pipeline.execute {} host (.single "photo" (.image {})) {}).2.requests.any
        fun request => (∃ port ∈ Edge.portsAt Graph.keepsake.edges request.node, port.isOverlay) ∧
          request.params.get? "overlays" = some (.array [.bool true]) := by
    decide +kernel
  rw [success] at asks
  obtain ⟨request, made, kept⟩ := List.any_eq_true.mp asks
  exact ⟨compiled, request, success, made, of_decide_eq_true kept⟩

end Workflow
