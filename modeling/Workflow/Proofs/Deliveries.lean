import Workflow.Proofs.Pictures
import Workflow.Run.Script

/-!
# What requests carry

A request has what the variables of its step hold when it is made: the input, the context,
the images of all references one after the other, and one image for each overlay.  Since
a run only adds to its store, that is also what the variables hold in the end.
-/

namespace Workflow

/-- There is a value exactly if a variable is named, and the variable holds it. -/
inductive Store.Holds (store : Store) : Option String → Option Value → Prop
  | nothing : Holds store none none
  | value {name : String} {value : Value} :
      store.get? name = some value → Holds store (some name) (some value)

/-- All images of the value that a reference names, of which there is one at least. -/
def Store.Depicts (store : Store) (reference : ImageRef) (images : List Image) : Prop :=
  ∃ value, store.get? reference.name = some value ∧ images = value.pictures ∧ images ≠ []

/-- The first image of the value that a reference names, with the entry at the index of
the reference in the list of settings among the parameters. -/
structure Overlay.Shows (store : Store) (params : Params) (reference : ImageRef)
    (overlay : Overlay) : Prop where
  index : overlay.index = reference.index
  image : ∃ value, store.get? reference.name = some value ∧
    value.pictures.head? = some overlay.image
  settings : ∀ entry, overlay.settings = some entry ↔
    ∃ items, params.get? "overlays" = some (.array items) ∧ items[reference.index]? = some entry

/-- A request has the values that its step names. -/
structure Request.Carries (request : Request) (store : Store) (step : Step) : Prop where
  input : store.Holds step.primaryInput? request.input
  context : store.Holds step.context? request.context
  pictured : step.kind = .transform ∨ step.kind = .vision →
    ∃ value, request.input = some value ∧ value.pictures ≠ []
  references : ∃ parts, request.referenceImages = parts.flatten ∧
    List.Forall₂ store.Depicts (step.deferred?.getD {}).references parts
  overlays : List.Forall₂ (Overlay.Shows store (step.params?.getD ∅))
    (step.deferred?.getD {}).overlays request.overlays

variable {scope : Scope} {store later : Store} {step : Step} {request : Request}

theorem Scope.read_eq_ok {name : String} {value : Value} :
    scope.read store name = .ok value ↔ store.get? name = some value := by
  unfold read
  cases store.get? name <;> simp

theorem Scope.structured_eq_ok {name : String} {value : Value} {content : Json} :
    scope.structured name value = .ok content ↔ value.structured? = some content := by
  unfold structured
  cases value.structured? <;> simp

theorem Scope.path_eq_ok {name path : String} {content found : Json} :
    scope.path name content path = .ok found ↔ content.lookup? path = some found := by
  unfold Scope.path
  cases content.lookup? path <;> simp

theorem Scope.field_eq_ok {name field : String} {found : Json} :
    scope.field store name field = .ok found ↔
      ∃ value content, store.get? name = some value ∧ value.structured? = some content ∧
        content.lookup? field = some found := by
  simp only [Scope.field, Outcome.bind_eq_ok, read_eq_ok, structured_eq_ok, path_eq_ok]
  constructor
  · intro found
    obtain ⟨value, held, content, holds, there⟩ := found
    exact ⟨value, content, held, holds, there⟩
  · intro parts
    obtain ⟨value, content, held, holds, there⟩ := parts
    exact ⟨value, held, content, holds, there⟩

theorem Store.Holds.mono {name : Option String} {value : Option Value}
    (holds : store.Holds name value) (continues : store.entries <+: later.entries) :
    later.Holds name value := by
  cases holds with
  | nothing => exact .nothing
  | value found => exact .value (Store.get?_of_prefix continues found)

theorem Request.Carries.mono (carries : request.Carries store step)
    (continues : store.entries <+: later.entries) : request.Carries later step := by
  have keeps : ∀ {name value}, store.get? name = some value → later.get? name = some value :=
    fun found => Store.get?_of_prefix continues found
  obtain ⟨input, context, pictured, ⟨parts, flat, depicted⟩, overlays⟩ := carries
  refine ⟨input.mono continues, context.mono continues, pictured, ⟨parts, flat, ?_⟩, ?_⟩
  · apply depicted.imp
    intro reference images depicts
    obtain ⟨value, found, all⟩ := depicts
    exact ⟨value, keeps found, all⟩
  · apply overlays.imp
    intro reference overlay shows
    obtain ⟨index, ⟨value, found, first⟩, settings⟩ := shows
    exact ⟨index, ⟨value, keeps found, first⟩, settings⟩

namespace Resolve

variable {references : List ImageRef}

theorem exists_of_bound {reference : ImageRef} {rest : List ImageRef}
    (bound : unbound store (reference :: rest) = []) :
    (∃ value, store.get? reference.name = some value) ∧ unbound store rest = [] := by
  rw [unbound_eq_filter, List.filter_eq_nil_iff, List.forall_mem_cons] at bound
  obtain ⟨first, others⟩ := bound
  constructor
  · exact Store.exists_get?.mpr (by simpa using first)
  · rw [unbound_eq_filter, List.filter_eq_nil_iff]
    exact others

theorem images_depict {found : List Image} (shown : images scope store references = .ok found)
    (bound : unbound store references = []) :
    ∃ parts, found = parts.flatten ∧ List.Forall₂ store.Depicts references parts := by
  induction references generalizing found with
  | nil =>
      obtain rfl := Except.ok.inj shown
      exact ⟨[], rfl, .nil⟩
  | cons reference rest induction =>
      obtain ⟨⟨value, held⟩, later⟩ := exists_of_bound bound
      simp only [images, held] at shown
      split at shown
      · cases shown
      · rename_i depicted
        obtain ⟨others, shownLater, rfl⟩ := Outcome.map_eq_ok.mp shown
        obtain ⟨parts, rfl, depicts⟩ := induction shownLater later
        rw [Value.images_eq_pictures] at depicted ⊢
        refine ⟨value.pictures :: parts, rfl, .cons ⟨value, held, rfl, ?_⟩ depicts⟩
        simpa using depicted

theorem bound_of_ok {port : ImagePort} {lookedUp : Except RunError α} {found : α}
    (shown : (do
        let found ← lookedUp
        match unbound store references with
        | [] => return found
        | missing => throw (RunError.missingImages scope port missing)) = Except.ok found) :
    lookedUp = .ok found ∧ unbound store references = [] := by
  obtain ⟨all, looked, kept⟩ := Outcome.bind_eq_ok.mp shown
  split at kept
  · rename_i bound
    rw [← Outcome.pure_eq_ok.mp kept]
    exact ⟨looked, bound⟩
  · cases kept

theorem referenceImages_depict {found : List Image}
    (shown : referenceImages scope store references = .ok found) :
    ∃ parts, found = parts.flatten ∧ List.Forall₂ store.Depicts references parts := by
  obtain ⟨looked, bound⟩ := bound_of_ok shown
  exact images_depict looked bound

/-- The first image of what a reference names, with the settings at its index. -/
structure Lays (store : Store) (settings : List Json) (reference : ImageRef)
    (overlay : Overlay) : Prop where
  index : overlay.index = reference.index
  image : ∃ value, store.get? reference.name = some value ∧
    value.pictures.head? = some overlay.image
  settings : overlay.settings = settings[reference.index]?

theorem boundOverlays_lay {settings : List Json} {found : List Overlay}
    (shown : boundOverlays scope store settings references = .ok found)
    (bound : unbound store references = []) :
    List.Forall₂ (Lays store settings) references found := by
  induction references generalizing found with
  | nil =>
      obtain rfl := Except.ok.inj shown
      exact .nil
  | cons reference rest induction =>
      obtain ⟨⟨value, held⟩, later⟩ := exists_of_bound bound
      simp only [boundOverlays, held] at shown
      split at shown
      · cases shown
      · rename_i image first
        obtain ⟨others, shownLater, rfl⟩ := Outcome.map_eq_ok.mp shown
        rw [Value.images_eq_pictures] at first
        exact .cons ⟨rfl, ⟨value, held, first⟩, rfl⟩ (induction shownLater later)

theorem getElem?_overlaySettings {params : Params} {index : Nat} {entry : Json} :
    (overlaySettings params)[index]? = some entry ↔
      ∃ items, params.get? "overlays" = some (.array items) ∧ items[index]? = some entry := by
  unfold overlaySettings
  split
  · rename_i items given
    simp [given]
  · rename_i other
    simp only [List.getElem?_nil, reduceCtorEq, false_iff]
    rintro ⟨items, given, -⟩
    exact other items given

/-- The settings of overlays are the same before the prompt is resolved. -/
theorem get?_overlays_prompt {params prompted : Params} {reference : Option PromptRef}
    {separator : String}
    (made : prompt scope store (visible params) reference separator = .ok prompted) :
    prompted.get? "overlays" = params.get? "overlays" := by
  rw [get?_prompt made (by decide), if_neg (by decide), get?_visible,
    if_neg (Step.not_marked "overlays" (by decide))]

end Resolve

theorem Step.input_of_image (works : step.kind = .transform ∨ step.kind = .vision) :
    step.requiresImage ∧ ∃ name, step.primaryInput? = some name := by
  cases step with
  | transform s => exact ⟨rfl, s.input, rfl⟩
  | vision s => exact ⟨rfl, s.input, rfl⟩
  | generate _ | save _ | text _ | fanOut _ | collect _ | router _ =>
      rcases works with kind | kind <;> cases kind

namespace Run

variable {config : RunConfig} {index : Nat} {provider : String}

theorem input_holds {found : Option Value} (read : input scope store step = .ok found) :
    store.Holds step.primaryInput? found ∧
      (step.requiresImage → ∀ value, found = some value → value.pictures ≠ []) := by
  unfold input at read
  cases named : step.primaryInput? with
  | none =>
      rw [named] at read
      obtain rfl := Except.ok.inj read
      exact ⟨.nothing, by simp⟩
  | some name =>
      simp only [named, Outcome.bind_eq_ok] at read
      obtain ⟨value, held, kept⟩ := read
      split at kept
      · cases kept
      · rename_i fit
        obtain rfl := Outcome.pure_eq_ok.mp kept
        refine ⟨.value (Scope.read_eq_ok.mp held), ?_⟩
        rintro requires _ ⟨⟩ imageless
        rw [← Value.images_eq_pictures] at imageless
        exact fit ⟨requires, imageless⟩

theorem context_holds {found : Option Value} (read : context scope store step = .ok found) :
    store.Holds step.context? found := by
  unfold context at read
  cases named : step.context? with
  | none =>
      rw [named] at read
      obtain rfl := Except.ok.inj read
      exact .nothing
  | some name =>
      rw [named] at read
      obtain ⟨value, held, rfl⟩ := Outcome.map_eq_ok.mp read
      exact .value (Scope.read_eq_ok.mp held)

end Run

/-- What the references of a step come to; the settings of its overlays are those among
its parameters. -/
theorem Deferred.resolve_shows {deferred : Deferred} {params : Params} {separator : String}
    {resolved : Resolved}
    (made : deferred.resolve scope store params separator = .ok resolved) :
    (∃ parts, resolved.referenceImages = parts.flatten ∧
        List.Forall₂ store.Depicts deferred.references parts) ∧
      List.Forall₂ (Overlay.Shows store params) deferred.overlays resolved.overlays := by
  simp only [resolve, Outcome.bind_eq_ok] at made
  obtain ⟨prompted, prompt, images, shown, made⟩ := made
  split at made
  · rename_i bare
    obtain rfl := Outcome.pure_eq_ok.mp made
    refine ⟨Resolve.referenceImages_depict shown, ?_⟩
    rw [List.isEmpty_iff.mp bare]
    exact .nil
  · simp only [Outcome.bind_eq_ok, Outcome.pure_eq_ok] at made
    obtain ⟨overlays, laid, rfl⟩ := made
    refine ⟨Resolve.referenceImages_depict shown, ?_⟩
    obtain ⟨looked, bound⟩ := Resolve.bound_of_ok laid
    apply (Resolve.boundOverlays_lay looked bound).imp
    intro reference overlay lays
    refine ⟨lays.index, lays.image, ?_⟩
    intro entry
    rw [lays.settings, Resolve.getElem?_overlaySettings, Resolve.get?_overlays_prompt prompt]

namespace Run

variable {config : RunConfig} {index : Nat} {provider : String}

theorem request_carries
    (made : Run.request config scope store step provider = .ok request) :
    request.Carries store step := by
  simp only [Run.request, Outcome.bind_eq_ok, Outcome.pure_eq_ok] at made
  obtain ⟨input, readInput, context, readContext, resolved, resolves, rfl⟩ := made
  obtain ⟨inputHolds, pictured⟩ := input_holds readInput
  obtain ⟨references, overlays⟩ := Deferred.resolve_shows resolves
  refine ⟨inputHolds, context_holds readContext, ?_, references, ?_⟩
  · intro works
    obtain ⟨requires, name, named⟩ := Step.input_of_image works
    rw [named] at inputHolds
    cases inputHolds with
    | value found => exact ⟨_, rfl, pictured requires _ rfl⟩
  · cases step with
    | save s =>
        generalize resolved.overlays = shown at overlays ⊢
        cases overlays
        exact .nil
    | generate _ | transform _ | vision _ | text _ | fanOut _ | collect _ | router _ =>
        exact overlays

theorem exists_request (made : action config index store step = .ok (.ask request)) :
    ∃ provider, Run.request config (step.scope index) store step provider = .ok request := by
  cases step with
  | fanOut _ | collect _ | router _ =>
      obtain ⟨_, -, impossible⟩ := Outcome.map_eq_ok.mp made
      cases impossible
  | generate _ | transform _ | save _ | vision _ | text _ =>
      obtain ⟨_, asks, same⟩ := Outcome.map_eq_ok.mp made
      obtain rfl := Action.ask.inj same
      exact ⟨_, asks⟩

end Run

namespace Pipeline

variable {pipeline : Pipeline} {config : RunConfig} {host : Host σ} {initial : KeyMap Value}
  {state : σ}

theorem runFirst_extends {count : Nat} {before : Progress σ}
    (within : count ≤ pipeline.steps.length)
    (ran : pipeline.runFirst config host initial state count = (.ok (), before)) :
    before.store.entries <+: (pipeline.execute config host initial state).2.store.entries := by
  have onward := Run.runSteps_extends config host pipeline.name count
    (pipeline.steps.drop count) before
  rw [execute_of_runFirst_ok within ran]
  rcases rest : Run.runSteps config host pipeline.name count (pipeline.steps.drop count) before
    with ⟨error | _, last⟩
  · rw [rest] at onward
    exact onward
  · rw [rest] at onward
    simp only [Run.store_emit]
    exact onward

theorem store_of_success {result : RunResult}
    (success : (pipeline.execute config host initial state).1 = .ok result) :
    (pipeline.execute config host initial state).2.store = result.store := by
  rw [execute_eq] at success ⊢
  rcases ran : Run.runSteps config host pipeline.name 0 pipeline.steps
    (pipeline.start config initial state) with ⟨error | _, last⟩
  · rw [ran] at success
    cases success
  · rw [ran] at success
    obtain rfl := Except.ok.inj success
    exact Run.store_emit ..

/-- Each request of a run has what the variables of its step hold when it is made, which in
a run that succeeds is what they hold in the end. -/
theorem requests_carry {request : Request}
    (made : request ∈ (pipeline.execute config host initial state).2.requests) :
    ∃ step before, pipeline.steps[request.stepIndex]? = some step ∧
      pipeline.runFirst config host initial state request.stepIndex = (.ok (), before) ∧
        request.Carries before.store step ∧
          ∀ result, (pipeline.execute config host initial state).1 = .ok result →
            request.Carries result.store step := by
  obtain ⟨step, before, found, ran, acts⟩ := mem_requests_of_execute made
  obtain ⟨provider, asks⟩ := Run.exists_request acts
  have carries := Run.request_carries asks
  refine ⟨step, before, found, ran, carries, ?_⟩
  intro result success
  have within : request.stepIndex ≤ pipeline.steps.length :=
    Nat.le_of_lt (List.getElem?_eq_some_iff.mp found).1
  have continues := runFirst_extends within ran
  rw [store_of_success success] at continues
  exact carries.mono continues

/-- A photo between two pages of an album, with a stamp on it, and what there is to say of
it. -/
def postcard : Pipeline where
  name := "postcard"
  steps := [
    .transform {
      operation := "blend"
      input := "photo"
      params := .single "overlays" (.array [.null, .bool true])
      deferred := {
        references := [{ name := "album", index := 0 }, { name := "photo", index := 1 }]
        overlays := [{ name := "stamp", index := 1 }] }
      out := "card" },
    .vision {
      provider := "describe"
      input := "card"
      context := some "notes"
      params := ∅
      out := "caption" }]

def postcardParts : KeyMap Value :=
  .ofList [
    ("album", .list [.image {}, .list [.data "at dusk", .image { url := some "page" }]]),
    ("notes", .data "from the south"),
    ("photo", .image {}),
    ("stamp", .list [.list [], .image { url := some "stamp" }, .image {}])]

theorem postcard_requests_carry :
    ∃ result request,
      (postcard.execute {} (Script.host ({} : Script).reply ∅) postcardParts {}).1 = .ok result ∧
      request ∈ (postcard.execute {} (Script.host ({} : Script).reply ∅) postcardParts
        {}).2.requests ∧
      request.overlays =
        [{ index := 1, image := { url := some "stamp" }, settings := some (.bool true) }] ∧
      ∃ step before, postcard.steps[request.stepIndex]? = some step ∧
        postcard.runFirst {} (Script.host ({} : Script).reply ∅) postcardParts {}
          request.stepIndex = (.ok (), before) ∧
        request.Carries before.store step ∧ request.Carries result.store step := by
  have succeeds : (postcard.execute {} (Script.host ({} : Script).reply ∅) postcardParts
      {}).1.toOption.isSome := by
    decide +kernel
  have asks : (postcard.execute {} (Script.host ({} : Script).reply ∅) postcardParts
      {}).2.requests.any fun request => request.overlays =
        [{ index := 1, image := { url := some "stamp" }, settings := some (.bool true) }] := by
    decide +kernel
  obtain ⟨result, success⟩ := Outcome.exists_ok succeeds
  obtain ⟨request, made, overlays⟩ := List.any_eq_true.mp asks
  obtain ⟨step, before, found, ran, carries, atLast⟩ := requests_carry made
  exact ⟨result, request, success, made, of_decide_eq_true overlays, step, before, found, ran,
    carries, atLast result success⟩

end Pipeline

end Workflow
