import Mathlib.Data.List.Basic
import Workflow.Proofs.Store
import Workflow.Run.Execute

/-!
# What steps depend on

A step looks at a store only through the variables that are its inputs, and at
its index only to name itself in errors and requests.  `Alike` relates what two
computations for one step come to: related values, or the same error, which
blames the scope of either computation.
-/

namespace Workflow

/-- The error belongs to the step that a scope names. -/
def RunError.Blames (scope : Scope) : RunError → Prop
  | missingVariable own _ | missingImages own _ _ | unexpectedValue own _ _ _
  | missingField own _ _ | stepFailed own _ _ | emptyOutput own => own = scope
  | lengthMismatch index node _ _ _ | collectIncomplete index node _ | selection index node _ =>
      index = scope.index ∧ node = scope.node
  | variableConflict _ | cancelled _ _ => False

namespace RunError.Blames

variable {scope : Scope} {error : RunError}

theorem stepIndex? (blames : error.Blames scope) : error.stepIndex? = some scope.index := by
  cases error <;> simp_all [RunError.Blames, RunError.stepIndex?]

theorem node? (blames : error.Blames scope) : error.node? = some scope.node := by
  cases error <;> simp_all [RunError.Blames, RunError.node?]

end RunError.Blames

/-- Two stores find the same values under some names. -/
def Store.Agree (names : List String) (store other : Store) : Prop :=
  ∀ name ∈ names, store.get? name = other.get? name

theorem Store.Agree.mono {names fewer : List String} {store other : Store}
    (agree : Store.Agree names store other) (within : fewer ⊆ names) :
    Store.Agree fewer store other :=
  fun name member => agree name (within member)

/-- Two results are related values or one error, told of either scope. -/
inductive Alike (here there : Scope) (related : α → β → Prop) :
    Except RunError α → Except RunError β → Prop
  | ok {value : α} {other : β} :
      related value other → Alike here there related (.ok value) (.ok other)
  | error (cause : Scope → RunError) :
      (cause here).Blames here → (cause there).Blames there →
        Alike here there related (.error (cause here)) (.error (cause there))

namespace Alike

variable {here there : Scope} {related : α → β → Prop} {further : γ → δ → Prop}
  {first : Except RunError α} {second : Except RunError β}

theorem bind {next : α → Except RunError γ} {other : β → Except RunError δ}
    (alike : Alike here there related first second)
    (rest : ∀ value counterpart, related value counterpart →
      Alike here there further (next value) (other counterpart)) :
    Alike here there further (first >>= next) (second >>= other) := by
  cases alike with
  | ok values => exact rest _ _ values
  | error cause blames counterpart => exact error cause blames counterpart

theorem map {change : α → γ} {other : β → δ}
    (alike : Alike here there (fun value counterpart => further (change value) (other counterpart))
      first second) :
    Alike here there further (first.map change) (second.map other) := by
  cases alike with
  | ok values => exact ok values
  | error cause blames counterpart => exact error cause blames counterpart

theorem congr {first second : Except RunError α} (alike : Alike here there Eq first second)
    (change : α → γ) : Alike here there Eq (first.map change) (second.map change) := by
  refine map ?_
  cases alike with
  | ok values => exact ok (congrArg change values)
  | error cause blames counterpart => exact error cause blames counterpart

theorem blames (alike : Alike here there related first second) {error : RunError}
    (failed : first = .error error) : error.Blames here := by
  cases alike with
  | ok values => simp at failed
  | error cause blames counterpart =>
      obtain rfl : cause here = error := by simpa using failed
      exact blames

theorem eq {first second : Except RunError α} (alike : Alike here here Eq first second) :
    first = second := by
  cases alike with
  | ok same => rw [same]
  | error => rfl

theorem eq_ok_iff {first second : Except RunError α} (alike : Alike here there Eq first second)
    {value : α} : first = .ok value ↔ second = .ok value := by
  cases alike with
  | ok same => rw [same]
  | error => simp

end Alike

variable {here there : Scope} {store other : Store} {name : String}

namespace Scope

theorem read_alike (same : store.get? name = other.get? name) :
    Alike here there Eq (here.read store name) (there.read other name) := by
  unfold read
  rw [same]
  cases other.get? name with
  | some value => exact .ok rfl
  | none => exact .error (fun scope => .missingVariable scope name) rfl rfl

theorem structured_alike (name : String) (value : Value) :
    Alike here there Eq (here.structured name value) (there.structured name value) := by
  unfold structured
  cases value.structured? with
  | some content => exact .ok rfl
  | none =>
      exact .error
        (fun scope => .unexpectedValue scope name "structured data" value.typeName) rfl rfl

theorem path_alike (name : String) (content : Json) (path : String) :
    Alike here there Eq (here.path name content path) (there.path name content path) := by
  unfold Scope.path
  cases content.lookup? path with
  | some value => exact .ok rfl
  | none => exact .error (fun scope => .missingField scope name path) rfl rfl

theorem field_alike (same : store.get? name = other.get? name) (field : String) :
    Alike here there Eq (here.field store name field) (there.field other name field) := by
  refine (read_alike same).bind ?_
  rintro value _ rfl
  refine (structured_alike name value).bind ?_
  rintro content _ rfl
  exact path_alike name content field

end Scope

namespace Resolve

theorem promptContent_alike {reference : PromptRef}
    (same : store.get? reference.name = other.get? reference.name) :
    Alike here there Eq (promptContent here store reference)
      (promptContent there other reference) := by
  unfold promptContent
  cases reference.field with
  | some field => exact (Scope.field_alike same field).congr _
  | none =>
      refine (Scope.read_alike same).bind ?_
      rintro value _ rfl
      cases value.textContent? with
      | some text => exact .ok rfl
      | none =>
          exact .error
            (fun scope => .unexpectedValue scope reference.name "text data" value.typeName) rfl rfl

theorem prompt_alike (params : Params) {reference : Option PromptRef} (separator : String)
    (same : ∀ found ∈ reference, store.get? found.name = other.get? found.name) :
    Alike here there Eq (prompt here store params reference separator)
      (prompt there other params reference separator) := by
  have body : Alike here there Eq (promptBody here store params reference)
      (promptBody there other params reference) := by
    cases reference with
    | none => exact .ok rfl
    | some found => exact (promptContent_alike (same found rfl)).congr _
  refine body.bind ?_
  rintro text _ rfl
  cases joinPrompt separator (prePrompt? params) text with
  | some _ => exact .ok rfl
  | none => exact .ok rfl

variable {references : List ImageRef}

theorem images_alike (agree : Store.Agree (references.map ImageRef.name) store other) :
    Alike here there Eq (images here store references) (images there other references) := by
  induction references with
  | nil => exact .ok rfl
  | cons reference rest induction =>
      have tail := induction (agree.mono (List.subset_cons_self ..))
      unfold images
      rw [agree reference.name List.mem_cons_self]
      cases other.get? reference.name with
      | none => exact tail
      | some value =>
          by_cases imageless : value.images.isEmpty
          · simp only [imageless, if_true]
            exact .error
              (fun scope => .unexpectedValue scope reference.name "an image" value.typeName) rfl rfl
          · simp only [imageless, Bool.false_eq_true, if_false]
            exact tail.congr _

theorem boundOverlays_alike (settings : List Json)
    (agree : Store.Agree (references.map ImageRef.name) store other) :
    Alike here there Eq (boundOverlays here store settings references)
      (boundOverlays there other settings references) := by
  induction references with
  | nil => exact .ok rfl
  | cons reference rest induction =>
      have tail := induction (agree.mono (List.subset_cons_self ..))
      unfold boundOverlays
      rw [agree reference.name List.mem_cons_self]
      cases other.get? reference.name with
      | none => exact tail
      | some value =>
          cases first : value.images.head? with
          | none =>
              simp only [first]
              exact .error
                (fun scope => .unexpectedValue scope reference.name "an image" value.typeName)
                rfl rfl
          | some image =>
              simp only [first]
              exact tail.congr _

theorem unbound_eq (agree : Store.Agree (references.map ImageRef.name) store other) :
    unbound store references = unbound other references := by
  apply List.filter_congr
  intro reference member
  simp [Store.contains, agree reference.name (List.mem_map_of_mem member)]

/-- Images found of some references are what they come to, unless references are
not bound. -/
theorem bound_alike (port : ImagePort)
    (agree : Store.Agree (references.map ImageRef.name) store other) (found : α) :
    Alike here there Eq
      (match unbound store references with
        | [] => (return found : Except RunError α)
        | missing => throw (.missingImages here port missing))
      (match unbound other references with
        | [] => return found
        | missing => throw (.missingImages there port missing)) := by
  rw [unbound_eq agree]
  cases unbound other references with
  | nil => exact .ok rfl
  | cons first missing =>
      exact .error (fun scope => .missingImages scope port (first :: missing)) rfl rfl

theorem referenceImages_alike (agree : Store.Agree (references.map ImageRef.name) store other) :
    Alike here there Eq (referenceImages here store references)
      (referenceImages there other references) := by
  refine (images_alike agree).bind ?_
  rintro found _ rfl
  exact bound_alike .references agree found

theorem overlays_alike (settings : List Json)
    (agree : Store.Agree (references.map ImageRef.name) store other) :
    Alike here there Eq (overlays here store settings references)
      (overlays there other settings references) := by
  refine (boundOverlays_alike settings agree).bind ?_
  rintro found _ rfl
  exact bound_alike .overlays agree found

end Resolve

theorem Deferred.resolve_alike {deferred : Deferred} (params : Params) (separator : String)
    (agree : Store.Agree deferred.names store other) :
    Alike here there Eq (deferred.resolve here store params separator)
      (deferred.resolve there other params separator) := by
  have references : Store.Agree (deferred.references.map ImageRef.name) store other :=
    agree.mono (by simp [Deferred.names])
  have overlays : Store.Agree (deferred.overlays.map ImageRef.name) store other :=
    agree.mono (by simp [Deferred.names])
  refine (Resolve.prompt_alike _ separator fun found member => agree _ ?_).bind ?_
  · have named := List.mem_map_of_mem (f := PromptRef.name) (Option.mem_toList.mpr member)
    simp [Deferred.names, named]
  rintro resolved _ rfl
  refine (Resolve.referenceImages_alike references).bind ?_
  rintro images _ rfl
  by_cases none : deferred.overlays.isEmpty
  · simp only [none, if_true]
    exact .ok rfl
  · simp only [none, Bool.false_eq_true, if_false]
    refine (Resolve.overlays_alike _ overlays).bind ?_
    rintro found _ rfl
    exact .ok rfl

namespace Flow

variable {first second : Nat}

theorem arrayItems_alike (name : String) (content : Json) :
    Alike here there Eq (arrayItems here name content) (arrayItems there name content) := by
  have refused : Alike here there Eq
      (.error (.unexpectedValue here name "an array" "a non-array value") :
        Except RunError (List Value))
      (.error (.unexpectedValue there name "an array" "a non-array value")) :=
    .error (fun scope => .unexpectedValue scope name "an array" "a non-array value") rfl rfl
  cases content with
  | array items => exact .ok rfl
  | _ => exact refused

theorem elements_alike (name : String) (value : Value) (property : Option String) :
    Alike here there Eq (elements here name value property)
      (elements there name value property) := by
  have read : Alike here there Eq (here.structured name value >>= arrayItems here name)
      (there.structured name value >>= arrayItems there name) := by
    refine (Scope.structured_alike name value).bind ?_
    rintro content _ rfl
    exact arrayItems_alike name content
  cases property with
  | some property =>
      refine (Scope.structured_alike name value).bind ?_
      rintro content _ rfl
      refine (Scope.path_alike name content property).bind ?_
      rintro array _ rfl
      exact arrayItems_alike name array
  | none =>
      cases value with
      | list items => exact .ok rfl
      | image _ | data _ => exact read

theorem slots_alike (step : FanOutStep) (value : Value) :
    Alike ((Step.fanOut step).scope first) ((Step.fanOut step).scope second) Eq
      (slots ((Step.fanOut step).scope first) step value)
      (slots ((Step.fanOut step).scope second) step value) := by
  unfold slots
  cases step.mode with
  | count => exact .ok rfl
  | array =>
      refine (elements_alike step.input value step.arrayProperty).bind ?_
      rintro items _ rfl
      by_cases all : items.length = step.count
      · simp only [all, if_true]
        exact .ok rfl
      · simp only [all, if_false]
        exact .error
          (fun scope => .lengthMismatch scope.index step.node (step.arrayProperty.getD "")
            step.count items.length) ⟨rfl, rfl⟩ ⟨rfl, rfl⟩

theorem fanOut_alike (step : FanOutStep)
    (agree : Store.Agree (Step.fanOut step).inputs store other) :
    Alike ((Step.fanOut step).scope first) ((Step.fanOut step).scope second) Eq
      (fanOut ((Step.fanOut step).scope first) store step)
      (fanOut ((Step.fanOut step).scope second) other step) := by
  have input := agree step.input (by simp [Step.inputs, Step.primaryInput?])
  refine (Scope.read_alike input).bind ?_
  rintro value _ rfl
  refine (slots_alike step value).bind ?_
  rintro values _ rfl
  exact .ok rfl

theorem collect_alike (step : CollectStep)
    (agree : Store.Agree (Step.collect step).inputs store other) :
    Alike ((Step.collect step).scope first) ((Step.collect step).scope second) Eq
      (collect ((Step.collect step).scope first) store step)
      (collect ((Step.collect step).scope second) other step) := by
  have inputs : Store.Agree step.inputs store other :=
    agree.mono (by simp [Step.inputs, Step.furtherInputs])
  have missing : (step.inputs.filter fun name => !store.contains name) =
      step.inputs.filter fun name => !other.contains name := by
    apply List.filter_congr
    intro name member
    simp [Store.contains, inputs name member]
  have found : step.inputs.filterMap store.get? = step.inputs.filterMap other.get? :=
    List.filterMap_congr inputs
  simp only [collect, missing, found]
  split
  · exact .error
      (fun scope => .collectIncomplete scope.index step.out
        (step.inputs.filter fun name => !other.contains name)) ⟨rfl, rfl⟩ ⟨rfl, rfl⟩
  · exact .ok rfl

theorem selection_alike (step : RouterStep)
    (same : store.get? step.selectionInput = other.get? step.selectionInput) :
    Alike here there Eq (selection here store step) (selection there other step) := by
  unfold selection
  cases step.selectionProperty with
  | some property => exact Scope.field_alike same property
  | none =>
      refine (Scope.read_alike same).bind ?_
      rintro value _ rfl
      cases value.structured?.or (value.textContent?.map Json.string) with
      | some found =>
          exact .ok rfl
      | none =>
          exact .error
            (fun scope => .unexpectedValue scope step.selectionInput "text data" value.typeName)
            rfl rfl

theorem context_alike (step : RouterStep)
    (same : store.get? step.selectionInput = other.get? step.selectionInput) :
    Alike here there Eq (context here store step) (context there other step) := by
  unfold context
  split
  · exact (Scope.field_alike same _).congr _
  · exact .ok rfl

theorem route_alike (step : RouterStep)
    (agree : Store.Agree (Step.router step).inputs store other) :
    Alike ((Step.router step).scope first) ((Step.router step).scope second) Eq
      (route ((Step.router step).scope first) store step)
      (route ((Step.router step).scope second) other step) := by
  have input := agree step.input (by simp [Step.inputs, Step.primaryInput?])
  have selects := agree step.selectionInput (by simp [Step.inputs, Step.furtherInputs])
  have refused : ∀ reason, Alike ((Step.router step).scope first) ((Step.router step).scope second)
      Eq (throw (.selection ((Step.router step).scope first).index step.out reason) :
        Except RunError Bindings)
      (throw (.selection ((Step.router step).scope second).index step.out reason)) :=
    fun reason => .error (fun scope => .selection scope.index step.out reason)
      ⟨rfl, rfl⟩ ⟨rfl, rfl⟩
  refine (Scope.read_alike input).bind ?_
  rintro value _ rfl
  refine (selection_alike step selects).bind ?_
  rintro content _ rfl
  split
  · exact refused _
  · exact refused _
  · refine (context_alike step selects).bind ?_
    rintro further _ rfl
    exact .ok rfl

end Flow

/-- Two actions differ at most in the index of the step that a request names. -/
inductive Action.Moved (first second : Nat) : Action → Action → Prop
  | bind (bindings : Bindings) : Moved first second (.bind bindings) (.bind bindings)
  | ask (request : Request) :
      Moved first second (.ask { request with stepIndex := first })
        (.ask { request with stepIndex := second })

namespace Run

variable {step : Step} {first second : Nat}

theorem input_alike (agree : Store.Agree step.inputs store other) :
    Alike here there Eq (input here store step) (input there other step) := by
  unfold input
  cases primary : step.primaryInput? with
  | none => exact .ok rfl
  | some name =>
      have same := agree name (by simp [Step.inputs, primary])
      refine (Scope.read_alike same).bind ?_
      rintro value _ rfl
      by_cases unfit : step.requiresImage ∧ value.images = []
      · simp only [unfit, and_self, if_true]
        exact .error
          (fun scope => .unexpectedValue scope name "an image" value.typeName) rfl rfl
      · simp only [unfit, if_false]
        exact .ok rfl

theorem context_alike (agree : Store.Agree step.inputs store other) :
    Alike here there Eq (context here store step) (context there other step) := by
  unfold context
  cases auxiliary : step.context? with
  | none => exact .ok rfl
  | some name =>
      have member : name ∈ step.inputs := by
        cases step with
        | vision s =>
            have same : s.context = some name := auxiliary
            simp [Step.inputs, Step.furtherInputs, same]
        | _ => simp [Step.context?] at auxiliary
      exact (Scope.read_alike (agree name member)).congr _

theorem request_alike (config : RunConfig) (provider : String)
    (agree : Store.Agree step.inputs store other) :
    Alike (step.scope first) (step.scope second)
      (fun request counterpart => Action.Moved first second (.ask request) (.ask counterpart))
      (request config (step.scope first) store step provider)
      (request config (step.scope second) other step provider) := by
  have references : Store.Agree (step.deferred?.getD {}).names store other := by
    apply agree.mono
    intro name member
    cases deferred : step.deferred? with
    | none => simp [deferred, Deferred.names] at member
    | some found =>
        simp only [deferred, Option.getD_some] at member
        simp [Step.inputs, deferred, member]
  refine (input_alike agree).bind ?_
  rintro input _ rfl
  refine (context_alike agree).bind ?_
  rintro context _ rfl
  refine (Deferred.resolve_alike _ _ references).bind ?_
  rintro resolved _ rfl
  exact .ok (.ask ⟨first, step.node, step.kind, provider, resolved.params, input, context,
    resolved.referenceImages, resolved.overlays⟩)

/-- What a step comes to depends on its inputs alone, but for the index that it
gives to its request or its error. -/
theorem action_alike (config : RunConfig) (agree : Store.Agree step.inputs store other) :
    Alike (step.scope first) (step.scope second) (Action.Moved first second)
      (action config first store step) (action config second other step) := by
  have bound : ∀ {flow counterpart : Except RunError Bindings},
      Alike (step.scope first) (step.scope second) Eq flow counterpart →
        Alike (step.scope first) (step.scope second) (Action.Moved first second)
          (flow.map .bind) (counterpart.map .bind) := by
    intro flow counterpart alike
    cases alike with
    | ok same => exact .ok (same ▸ .bind _)
    | error cause blames counterpart => exact .error cause blames counterpart
  have asked : ∀ provider, Alike (step.scope first) (step.scope second)
      (Action.Moved first second)
      ((request config (step.scope first) store step provider).map .ask)
      ((request config (step.scope second) other step provider).map .ask) :=
    fun provider => (request_alike config provider agree).map
  cases step with
  | fanOut s => exact bound (Flow.fanOut_alike s agree)
  | collect s => exact bound (Flow.collect_alike s agree)
  | router s => exact bound (Flow.route_alike s agree)
  | generate s => exact asked s.generator
  | transform s => exact asked s.operation
  | save s => exact asked s.provider
  | vision s => exact asked s.provider
  | text s => exact asked s.provider

theorem replyBindings_alike (config : RunConfig) (step : Step) (reply : Reply) :
    Alike (step.scope first) (step.scope second) Eq (replyBindings config first step reply)
      (replyBindings config second step reply) := by
  cases reply with
  | error failure =>
      exact .error (fun scope => .stepFailed scope (step.provider?.getD "") failure) rfl rfl
  | ok output =>
      simp only [replyBindings, outputBindings]
      split
      · exact .ok rfl
      · cases output.value? with
        | none => exact .error RunError.emptyOutput rfl rfl
        | some value => exact .ok rfl

end Run

end Workflow
