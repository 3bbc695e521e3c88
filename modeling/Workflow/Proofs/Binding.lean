import Workflow.Proofs.Grounded
import Workflow.Run.Execute

/-!
# What steps bind

A step whose inputs are bound either comes to an error that does not dangle, or
it binds exactly its outputs, in their order.  Flow control is followed through
each of its kinds; every other step binds what its provider answers.
-/

namespace Workflow

/-- The outputs of a step agree with its settings: a fan-out has as many slots
as it counts, and a router has a variable for a context exactly if it reads
one. -/
def Step.Consistent : Step → Prop
  | .fanOut s => s.out.length = s.count
  | .router s => s.contextOut.isSome ↔ s.contextProperty.isSome
  | .generate _ | .transform _ | .save _ | .vision _ | .text _ | .collect _ => True

def Bindings.names (bindings : Bindings) : List String :=
  bindings.map Prod.fst

variable {scope : Scope} {store : Store}

namespace Flow

theorem arrayItems_grounded (name : String) (content : Json) :
    Grounded (arrayItems scope name content) fun _ => True := by
  cases content <;> simp [arrayItems, RunError.Dangling]

theorem elements_grounded (name : String) (value : Value) (property : Option String) :
    Grounded (elements scope name value property) fun _ => True := by
  have read : Grounded (scope.structured name value >>= arrayItems scope name) fun _ => True :=
    (Scope.structured_grounded value).bind fun content _ => arrayItems_grounded name content
  cases property with
  | some property =>
      refine (Scope.structured_grounded value).bind fun content _ => ?_
      refine (Scope.path_grounded content property).bind fun array _ => ?_
      exact arrayItems_grounded name array
  | none =>
      cases value with
      | list items => simp [elements]
      | image _ | data _ => exact read

theorem slots_grounded (step : FanOutStep) (value : Value) :
    Grounded (slots scope step value) fun values => values.length = step.count := by
  unfold slots
  cases step.mode with
  | count => simp
  | array =>
      refine (elements_grounded step.input value step.arrayProperty).bind fun items _ => ?_
      by_cases all : items.length = step.count
      · simp [all]
      · simp [all, RunError.Dangling]

theorem fanOut_grounded {step : FanOutStep} (consistent : step.out.length = step.count)
    (bound : step.input ∈ store.names) :
    Grounded (fanOut scope store step) fun bindings =>
      bindings.names = step.node :: step.out := by
  refine (Scope.read_grounded bound).bind fun value _ => ?_
  refine (slots_grounded step value).bind fun values counted => ?_
  simp [Bindings.names, List.map_fst_zip, consistent, counted]

theorem collect_grounded {step : CollectStep} (bound : step.inputs ⊆ store.names) :
    Grounded (collect scope store step) fun bindings => bindings.names = [step.out] := by
  have none : (step.inputs.filter fun name => !store.contains name) = [] := by
    rw [List.filter_eq_nil_iff]
    intro name member
    simp [Store.contains_iff_mem.mpr (bound member)]
  simp [collect, none, Bindings.names]

theorem selection_grounded {step : RouterStep} (bound : step.selectionInput ∈ store.names) :
    Grounded (selection scope store step) fun _ => True := by
  unfold selection
  cases step.selectionProperty with
  | some property => exact Scope.field_grounded bound property
  | none =>
      refine (Scope.read_grounded bound).bind fun value _ => ?_
      cases value.structured?.or (value.textContent?.map Json.string) <;>
        simp [RunError.Dangling]

theorem context_grounded {step : RouterStep}
    (consistent : step.contextOut.isSome ↔ step.contextProperty.isSome)
    (bound : step.selectionInput ∈ store.names) :
    Grounded (context scope store step) fun bindings =>
      bindings.names = step.contextOut.toList := by
  unfold context
  cases read : step.contextProperty with
  | none =>
      have absent : step.contextOut = none := by
        simpa [read] using consistent
      simp [absent, Bindings.names]
  | some property =>
      obtain ⟨name, out⟩ : ∃ name, step.contextOut = some name := by
        simpa [read, Option.isSome_iff_exists] using consistent
      rw [out]
      exact ((Scope.field_grounded bound property).imp fun _ _ => rfl).map

theorem route_grounded {step : RouterStep}
    (consistent : step.contextOut.isSome ↔ step.contextProperty.isSome)
    (bound : step.input ∈ store.names) (selectionBound : step.selectionInput ∈ store.names) :
    Grounded (route scope store step) fun bindings =>
      bindings.names = step.out :: step.contextOut.toList := by
  refine (Scope.read_grounded bound).bind fun value _ => ?_
  refine (selection_grounded selectionBound).bind fun content _ => ?_
  split
  · simp [RunError.Dangling]
  · simp [RunError.Dangling]
  · refine (context_grounded consistent selectionBound).bind fun further names => ?_
    simpa [Bindings.names] using names

end Flow

namespace Run

variable {config : RunConfig} {index : Nat} {step : Step}

theorem input_grounded (bound : step.inputs ⊆ store.names) :
    Grounded (input scope store step) fun _ => True := by
  unfold input
  cases primary : step.primaryInput? with
  | none => simp
  | some name =>
      have nameBound : name ∈ store.names := by
        apply bound
        simp [Step.inputs, primary]
      refine (Scope.read_grounded nameBound).bind fun value _ => ?_
      by_cases unfit : step.requiresImage ∧ value.images = []
      · simp [unfit, RunError.Dangling]
      · simp [unfit]

theorem context_grounded (bound : step.inputs ⊆ store.names) :
    Grounded (context scope store step) fun _ => True := by
  unfold context
  cases auxiliary : step.context? with
  | none => simp
  | some name =>
      have nameBound : name ∈ store.names := by
        apply bound
        cases step with
        | vision s =>
            have same : s.context = some name := auxiliary
            simp [Step.inputs, Step.furtherInputs, same]
        | _ => simp [Step.context?] at auxiliary
      exact (Scope.read_grounded nameBound).map

theorem request_grounded (bound : step.inputs ⊆ store.names) (provider : String) :
    Grounded (request config scope store step provider) fun _ => True := by
  have references : (step.deferred?.getD {}).names ⊆ store.names := by
    intro name member
    apply bound
    cases deferred : step.deferred? with
    | none => simp [deferred, Deferred.names] at member
    | some found =>
        simp only [deferred, Option.getD_some] at member
        simp [Step.inputs, deferred, member]
  refine (input_grounded bound).bind fun input _ => ?_
  refine (context_grounded bound).bind fun context _ => ?_
  refine (Deferred.resolve_grounded references).bind fun resolved _ => ?_
  simp

end Run

/-- An action that fits a step: bindings of its outputs, or a request where the
step is not carried out at once. -/
def Action.Fits (step : Step) : Action → Prop
  | bind bindings => bindings.names = step.outputs
  | ask _ => ¬step.kind.isFlowControl

namespace Run

variable {config : RunConfig} {index : Nat} {step : Step}

theorem action_grounded (consistent : step.Consistent) (bound : step.inputs ⊆ store.names) :
    Grounded (action config index store step) (Action.Fits step) := by
  have asked : ∀ {scope : Scope} {provider : String}, ¬step.kind.isFlowControl →
      Grounded ((request config scope store step provider).map Action.ask)
        (Action.Fits step) := by
    intro scope provider notFlow
    refine Grounded.map ?_
    exact (request_grounded bound provider).imp fun _ _ => notFlow
  cases step with
  | fanOut s =>
      have input : s.input ∈ store.names := bound (by simp [Step.inputs, Step.primaryInput?])
      exact (Flow.fanOut_grounded consistent input).map
  | collect s =>
      have inputs : s.inputs ⊆ store.names := by
        simpa [Step.inputs, Step.primaryInput?, Step.furtherInputs, Step.deferred?] using bound
      exact (Flow.collect_grounded inputs).map
  | router s =>
      have input : s.input ∈ store.names := bound (by simp [Step.inputs, Step.primaryInput?])
      have selection : s.selectionInput ∈ store.names :=
        bound (by simp [Step.inputs, Step.furtherInputs])
      exact (Flow.route_grounded consistent input selection).map
  | generate _ | transform _ | save _ | vision _ | text _ =>
      exact asked (by simp [Step.kind, StepKind.isFlowControl])

theorem outputBindings_grounded (output : Output) (notFlow : ¬step.kind.isFlowControl) :
    Grounded (outputBindings config scope step output) fun bindings =>
      bindings.names = step.outputs := by
  cases step with
  | save s => simp [outputBindings, Bindings.names, Step.outputs]
  | generate s | transform s | vision s | text s =>
      cases value : output.value? with
      | none => simp [outputBindings, value, RunError.Dangling]
      | some _ => simp [outputBindings, value, Bindings.names, Step.outputs, Step.node]
  | fanOut s | collect s | router s => simp [Step.kind, StepKind.isFlowControl] at notFlow

theorem replyBindings_grounded (reply : Reply) (notFlow : ¬step.kind.isFlowControl) :
    Grounded (replyBindings config index step reply) fun bindings =>
      bindings.names = step.outputs := by
  cases reply with
  | error failure => simp [replyBindings, RunError.Dangling]
  | ok output => exact outputBindings_grounded output notFlow

@[simp] theorem store_emit (config : RunConfig) (event : Event) (progress : Progress σ) :
    (emit config event progress).store = progress.store := by
  unfold emit
  split <;> rfl

variable {progress : Progress σ}

theorem perform_grounded (config : RunConfig) (host : Host σ) (index : Nat)
    (consistent : step.Consistent)
    (bound : step.inputs ⊆ progress.store.names) :
    Grounded (perform config host index step progress).1 (fun bindings =>
        bindings.names = step.outputs) ∧
      (perform config host index step progress).2.store = progress.store := by
  have acted : Grounded (action config index progress.store step) (Action.Fits step) :=
    action_grounded consistent bound
  unfold perform
  cases acts : action config index progress.store step with
  | error refusal =>
      rw [acts] at acted
      simpa using acted
  | ok action =>
      rw [acts, Grounded.of_ok] at acted
      cases action with
      | bind bindings => exact ⟨Grounded.of_ok.mpr acted, rfl⟩
      | ask request => exact ⟨replyBindings_grounded _ acted, rfl⟩

theorem commit_fresh (index : Nat) (step : Step) {bindings : Bindings}
    (distinct : (progress.store.names ++ bindings.names).Nodup) :
    (commit index step bindings progress).1 = .ok () ∧
      (commit index step bindings progress).2.store.names =
        progress.store.names ++ bindings.names := by
  induction bindings generalizing progress with
  | nil => simp [commit, Bindings.names]
  | cons binding bindings induction =>
      obtain ⟨name, value⟩ := binding
      have unbound : name ∉ progress.store.names := by
        intro again
        exact (List.nodup_append.mp distinct).2.2 name again name List.mem_cons_self rfl
      have binds : progress.store.bind name value =
          .ok ⟨progress.store.entries ++ [(name, value)]⟩ :=
        Store.bind_eq_ok.mpr ⟨unbound, rfl⟩
      have names : progress.store.names ++ Bindings.names ((name, value) :: bindings) =
          Store.names ⟨progress.store.entries ++ [(name, value)]⟩ ++ Bindings.names bindings := by
        simp [Store.names, Bindings.names]
      rw [names] at distinct ⊢
      simp only [commit, binds]
      exact induction distinct

/-- A step whose inputs are bound and whose outputs are not binds its outputs,
or comes to an error that does not dangle. -/
theorem runStep_grounded (config : RunConfig) (host : Host σ) (index : Nat)
    (progress : Progress σ) (consistent : step.Consistent)
    (bound : step.inputs ⊆ progress.store.names)
    (fresh : (progress.store.names ++ step.outputs).Nodup) :
    Grounded (runStep config host index step progress).1 fun _ =>
      (runStep config host index step progress).2.store.names =
        progress.store.names ++ step.outputs := by
  have sameStore := store_emit config (.stepStarted index step.node step.kind) progress
  unfold runStep
  generalize emit config (.stepStarted index step.node step.kind) progress = started at sameStore ⊢
  rw [← sameStore] at bound fresh ⊢
  have performed := perform_grounded config host index consistent bound
  rcases performs : perform config host index step started with ⟨result, next⟩
  rw [performs] at performed
  obtain ⟨grounded, unchanged⟩ := performed
  simp only [performs]
  cases result with
  | error refusal => simpa using grounded
  | ok bindings =>
      have names : bindings.names = step.outputs := grounded.value bindings rfl
      simp only at unchanged
      rw [← names, ← unchanged] at fresh ⊢
      obtain ⟨succeeds, bindsAll⟩ := commit_fresh index step fresh
      rcases commits : commit index step bindings next with ⟨outcome, last⟩
      rw [commits] at succeeds bindsAll
      obtain rfl : outcome = .ok () := succeeds
      simpa [commits] using bindsAll

end Run

end Workflow
