import Workflow.Proofs.Extension
import Workflow.Proofs.Requests
import Workflow.Run.Script

/-!
# Artifacts and what they record

What a provider returns is bound with each of its images completed, and then it is
recorded leaf by leaf.  So the artifacts of a run are the leaves of what its store
holds for the steps that ask providers for values, in the order of the steps.
-/

namespace Workflow

/-- An image or a text inside a value. -/
inductive Leaf where
  | image (image : Image)
  | text (text : String)

namespace Value

mutual

/-- The leaves of a value, depth first. -/
def leaves : Value → List Leaf
  | image content => [.image content]
  | data text => [.text text]
  | list items => itemLeaves items

def itemLeaves : List Value → List Leaf
  | [] => []
  | item :: items => leaves item ++ itemLeaves items

end

end Value

/-- What an artifact records of a leaf. -/
inductive Artifact.Records (index : Nat) (node name : String) : Leaf → Artifact → Prop
  | image {image : Image} {id mime : String} :
      image.id = some id → image.mimeType = some mime →
        Records index node name (.image image)
          { id, stepIndex := index, node, variableName := name, mimeType := mime
            data := image.data, url := image.url }
  | text (text : String) :
      Records index node name (.text text)
        { id := contentId name (Text.bytes text), stepIndex := index, node
          variableName := name, mimeType := "text/plain", data := Text.bytes text, url := none }

/-- An image is bound as it was returned, but with an id and a MIME type. -/
structure Image.Completed (config : RunConfig) (name : String) (returned bound : Image) :
    Prop where
  id : bound.id = some (returned.id.getD (contentId name returned.data))
  mimeType : bound.mimeType = some (returned.mimeType.getD config.defaultImageMime)
  data : bound.data = returned.data
  url : bound.url = returned.url

/-- A value is bound as it was returned, with its images completed. -/
inductive Value.Completed (config : RunConfig) (name : String) : Value → Value → Prop
  | image {returned bound : Image} :
      returned.Completed config name bound → Completed config name (.image returned) (.image bound)
  | data (text : String) : Completed config name (.data text) (.data text)
  | list {returned bound : List Value} :
      List.Forall₂ (Completed config name) returned bound →
        Completed config name (.list returned) (.list bound)

/-- The value that an output holds: a single value is not made a list. -/
inductive Output.Holds : Output → Value → Prop
  | value (value : Value) : Holds (.value value) value
  | single (value : Value) : Holds (.values [value]) value
  | several (first second : Value) (rest : List Value) :
      Holds (.values (first :: second :: rest)) (.list (first :: second :: rest))

theorem Output.holds_of_value? {output : Output} {value : Value}
    (found : output.value? = some value) : output.Holds value := by
  cases output with
  | empty => cases found
  | value result =>
      obtain rfl := Option.some.inj found
      exact .value result
  | values results =>
      match results with
      | [] => cases found
      | [result] =>
          obtain rfl := Option.some.inj found
          exact .single result
      | first :: second :: rest =>
          obtain rfl := Option.some.inj found
          exact .several first second rest

theorem Image.completed_completeImage (config : RunConfig) (name : String) (image : Image) :
    image.Completed config name (Run.completeImage config name image) :=
  ⟨rfl, rfl, rfl, rfl⟩

namespace Value

variable (config : RunConfig) (name : String)

mutual

theorem completed_visitImages (value : Value) :
    value.Completed config name (visitImages (fun (_ : Unit) image =>
      (Run.completeImage config name image, ())) () value).1 := by
  cases value with
  | image content => exact .image (content.completed_completeImage config name)
  | data text => exact .data text
  | list items => exact .list (completed_visitItemImages items)

theorem completed_visitItemImages (items : List Value) :
    List.Forall₂ (Completed config name) items (visitItemImages (fun (_ : Unit) image =>
      (Run.completeImage config name image, ())) () items).1 := by
  cases items with
  | nil => exact .nil
  | cons item items => exact .cons (completed_visitImages item) (completed_visitItemImages items)

end

theorem completed_mapImages (value : Value) :
    value.Completed config name (value.mapImages (Run.completeImage config name)) :=
  completed_visitImages config name value

variable {config name}

mutual

/-- The artifacts of a value whose images are completed record its leaves. -/
theorem Completed.records {returned bound : Value} (index : Nat) (node : String)
    (completed : returned.Completed config name bound) :
    List.Forall₂ (Artifact.Records index node name) bound.leaves
      (Artifact.ofValue index node name bound) := by
  cases completed with
  | image made =>
      rw [leaves, Artifact.ofValue, Artifact.ofImage, made.id, made.mimeType, Option.getD_some,
        Option.getD_some]
      exact .cons (.image made.id made.mimeType) .nil
  | data text => exact .cons (.text text) .nil
  | list items => exact Completed.records_items index node items

theorem Completed.records_items {returned bound : List Value} (index : Nat) (node : String)
    (completed : List.Forall₂ (Completed config name) returned bound) :
    List.Forall₂ (Artifact.Records index node name) (itemLeaves bound)
      (Artifact.ofItems index node name bound) := by
  cases completed with
  | nil => exact .nil
  | cons first rest =>
      exact List.rel_append (Completed.records index node first)
        (Completed.records_items index node rest)

end

end Value

namespace Pipeline

/-- In a run, the step with an index makes one request, to which an output is
returned. -/
def Returns (pipeline : Pipeline) (config : RunConfig) (host : Host σ)
    (initial : KeyMap Value) (state : σ) (index : Nat) (output : Output) : Prop :=
  ∃ before request after,
    pipeline.runFirst config host initial state index = (.ok (), before) ∧
    host.serve (host.poll before.host).2 request = (.ok output, after.host) ∧
    pipeline.runFirst config host initial state (index + 1) = (.ok (), after) ∧
    after.requests = before.requests ++ [request]

/-- The artifacts that a step contributes to a run, where a store holds what the
run has bound.  A provider-backed step contributes the leaves of the value of its
variable, which is the value that its provider returned, completed.  Any other
step contributes nothing. -/
inductive Contributes (pipeline : Pipeline) (config : RunConfig) (host : Host σ)
    (initial : KeyMap Value) (state : σ) (store : Store) (index : Nat) (step : Step) :
    List Artifact → Prop
  | produced {name : String} {output : Output} {returned bound : Value}
      {artifacts : List Artifact} :
      step.kind.isProviderBacked →
      step.outputs = [name] →
      pipeline.Returns config host initial state index output →
      output.Holds returned →
      store.get? name = some bound →
      returned.Completed config name bound →
      List.Forall₂ (Artifact.Records index step.node name) bound.leaves artifacts →
      Contributes pipeline config host initial state store index step artifacts
  | nothing :
      ¬step.kind.isProviderBacked →
      Contributes pipeline config host initial state store index step []

end Pipeline

namespace Run

variable {config : RunConfig} {host : Host σ} {index : Nat} {start after : Progress σ}
  {step : Step}

theorem action_bind {store : Store} {bindings : Bindings}
    (made : action config index store step = .ok (.bind bindings)) :
    step.kind.isFlowControl := by
  cases step with
  | fanOut _ | collect _ | router _ => rfl
  | generate _ | transform _ | save _ | vision _ | text _ =>
      obtain ⟨_, -, impossible⟩ := Outcome.map_eq_ok.mp made
      cases impossible

theorem action_of_backed {store : Store} (backed : step.kind.isProviderBacked)
    (bindings : Bindings) : action config index store step ≠ .ok (.bind bindings) := by
  intro made
  have flow := action_bind made
  cases kind : step.kind <;> simp [kind, StepKind.isProviderBacked, StepKind.isFlowControl]
    at backed flow

theorem outputBindings_of_backed (config : RunConfig) (scope : Scope)
    (backed : step.kind.isProviderBacked) (output : Output) :
    outputBindings config scope step output =
      match output.value? with
      | none => .error (.emptyOutput scope)
      | some value => .ok [(step.node, value.mapImages (completeImage config step.node))] := by
  cases step with
  | save _ => exact absurd backed Bool.false_ne_true
  | generate _ | transform _ | vision _ | text _ | fanOut _ | collect _ | router _ => rfl

theorem outcome_of_backed {answer : Request → Reply} {store : Store} {bindings : Bindings}
    (backed : step.kind.isProviderBacked)
    (made : outcome config answer index store step = .ok bindings) :
    ∃ request output returned, requested config index store step = [request] ∧
      answer request = .ok output ∧ output.Holds returned ∧
        bindings = [(step.node, returned.mapImages (completeImage config step.node))] := by
  rw [outcome] at made
  split at made
  · cases made
  · rename_i acts
    exact absurd acts (action_of_backed backed _)
  · rename_i request acts
    have asks : requested config index store step = [request] := by
      rw [requested, acts]
    cases replied : answer request with
    | error failure =>
        rw [replied] at made
        cases made
    | ok output =>
        rw [replied] at made
        replace made : outputBindings config (step.scope index) step output = .ok bindings := made
        rw [outputBindings_of_backed config _ backed] at made
        cases found : output.value? with
        | none =>
            rw [found] at made
            cases made
        | some returned =>
            rw [found] at made
            exact ⟨request, output, returned, asks, replied, Output.holds_of_value? found,
              (Except.ok.inj made).symm⟩

/-- What a provider-backed step that succeeds adds to a run. -/
theorem Turn.produces (turn : Turn config host index step start (.ok ()) after)
    (backed : step.kind.isProviderBacked) :
    ∃ request output returned,
      host.serve start.host request = (.ok output, after.host) ∧
      after.requests = start.requests ++ [request] ∧
      output.Holds returned ∧
      after.store.get? step.node =
        some (returned.mapImages (completeImage config step.node)) ∧
      after.artifacts = start.artifacts ++ Artifact.ofValue index step.node step.node
        (returned.mapImages (completeImage config step.node)) := by
  cases turn with
  | completed made fresh =>
      obtain ⟨request, output, returned, asks, replied, holds, rfl⟩ :=
        outcome_of_backed backed made
      have unbound : step.node ∉ start.store.names :=
        fresh.unbound step.node List.mem_cons_self
      refine ⟨request, output, returned, ?_, ?_, holds, ?_, ?_⟩
      · apply Prod.ext
        · exact replied
        · simp [noted, committed, asked, asks, Host.after]
      · simp [noted, committed, asked, asks]
      · exact Store.get?_bound unbound _
      · simp [noted, committed, asked, Step.recorded, backed]

end Run

namespace Pipeline

variable {pipeline : Pipeline} {config : RunConfig} {host : Host σ} {initial : KeyMap Value}
  {state : σ} {store later : Store} {index : Nat} {step : Step} {artifacts : List Artifact}

theorem Contributes.mono
    (contributes : pipeline.Contributes config host initial state store index step artifacts)
    (continues : store.entries <+: later.entries) :
    pipeline.Contributes config host initial state later index step artifacts := by
  cases contributes with
  | produced backed outputs returns holds found completed records =>
      exact .produced backed outputs returns holds (Store.get?_of_prefix continues found)
        completed records
  | nothing other => exact .nothing other

theorem exists_contributes {after : Progress σ} (found : pipeline.steps[index]? = some step)
    (ran : pipeline.runFirst config host initial state (index + 1) = (.ok (), after)) :
    ∃ before part, pipeline.runFirst config host initial state index = (.ok (), before) ∧
      after.artifacts = before.artifacts ++ part ∧
        pipeline.Contributes config host initial state after.store index step part := by
  obtain ⟨before, earlier, passes⟩ := exists_runStep_of_runFirst found ran
  have turn := Run.turn_of_runStep passes
  by_cases backed : step.kind.isProviderBacked
  · obtain ⟨request, output, returned, served, asked, holds, bound, recorded⟩ :=
      turn.produces backed
    have outputs : step.outputs = [step.node] := by
      cases step <;> simp_all [Step.kind, StepKind.isProviderBacked, Step.outputs, Step.node]
    have completed := returned.completed_mapImages config step.node
    exact ⟨before, _, earlier, recorded, .produced backed outputs
      ⟨before, request, after, earlier, served, ran, asked⟩ holds bound completed
      (completed.records index step.node)⟩
  · obtain ⟨bindings, -, -, -, recorded, -⟩ := turn.of_ok
    refine ⟨before, [], earlier, ?_, .nothing backed⟩
    rw [recorded, Step.recorded, if_neg backed]

/-- The artifacts of the first steps of a run are what these steps contribute. -/
theorem exists_parts {count : Nat} (within : count ≤ pipeline.steps.length)
    {after : Progress σ}
    (ran : pipeline.runFirst config host initial state count = (.ok (), after)) :
    ∃ parts, after.artifacts = parts.flatten ∧
      List.Forall₂ (fun place part => pipeline.Contributes config host initial state after.store
        place.2 place.1 part) (pipeline.steps.take count).zipIdx parts := by
  induction count generalizing after with
  | zero =>
      refine ⟨[], ?_, by simp⟩
      obtain rfl : pipeline.start config initial state = after := (Prod.ext_iff.mp ran).2
      exact pipeline.start_artifacts config initial state
  | succ count induction =>
      have found : pipeline.steps[count]? = some pipeline.steps[count] :=
        List.getElem?_eq_getElem within
      obtain ⟨before, part, earlier, recorded, contributes⟩ := exists_contributes found ran
      obtain ⟨parts, flat, all⟩ := induction (Nat.le_of_succ_le within) earlier
      have continues := pipeline.runFirst_succ_extends config host initial state count
      rw [earlier, ran] at continues
      have length : (pipeline.steps.take count).length = count :=
        List.length_take_of_le (Nat.le_of_succ_le within)
      refine ⟨parts ++ [part], ?_, ?_⟩
      · rw [recorded, flat, List.flatten_append, List.flatten_singleton]
      · rw [List.take_add_one, found, Option.toList_some, List.zipIdx_append, length, Nat.zero_add]
        apply List.rel_append
        · exact all.imp fun _ _ before => before.mono continues
        · exact .cons contributes .nil

/-- The artifacts of a run that succeeds are what its steps contribute, in their
order. -/
theorem execute_artifacts {result : RunResult}
    (success : (pipeline.execute config host initial state).1 = .ok result) :
    ∃ parts, result.artifacts = parts.flatten ∧
      List.Forall₂ (fun place part => pipeline.Contributes config host initial state result.store
        place.2 place.1 part) pipeline.steps.zipIdx parts := by
  rw [execute_fst] at success
  obtain ⟨_, done, rfl⟩ := Outcome.map_eq_ok.mp success
  rcases ran : Run.runSteps config host pipeline.name 0 pipeline.steps
    (pipeline.start config initial state) with ⟨error | _, last⟩
  · rw [ran] at done
    cases done
  · have all : pipeline.runFirst config host initial state pipeline.steps.length =
        (.ok (), last) := by
      rw [runFirst, List.take_length, ran]
    obtain ⟨parts, flat, contribute⟩ := exists_parts (Nat.le_refl _) all
    rw [List.take_length] at contribute
    exact ⟨parts, flat, contribute⟩

/-- A pipeline that paints an image and keeps it. -/
def seascape : Pipeline where
  name := "seascape"
  steps := [
    .generate {
      generator := "paint"
      params := .single "prompt" (.string "a calm sea")
      out := "sea" },
    .save { node := "keep", input := "sea", destination := "album", provider := "local" }]

/-- An image and, in a list, what there is to say of it. -/
def calmSea : Output :=
  .values [.image {}, .list [.data "calm"]]

theorem seascape_artifacts :
    ∃ result parts,
      (seascape.execute {} (Script.host (fun _ => .ok calmSea) ∅) ∅ {}).1 = .ok result ∧
      result.artifacts = parts.flatten ∧
      List.Forall₂ (fun place part => seascape.Contributes {}
        (Script.host (fun _ => .ok calmSea) ∅) ∅ {} result.store place.2 place.1 part)
          seascape.steps.zipIdx parts := by
  have succeeds :
      (seascape.execute {} (Script.host (fun _ => .ok calmSea) ∅) ∅ {}).1.toOption.isSome := by
    decide +kernel
  obtain ⟨result, success⟩ := Outcome.exists_ok succeeds
  obtain ⟨parts, flat, contribute⟩ := execute_artifacts success
  exact ⟨result, parts, success, flat, contribute⟩

end Pipeline

end Workflow
