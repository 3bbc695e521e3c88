import Workflow.Proofs.Lookup
import Workflow.Proofs.Trace

/-!
# What providers are asked

A run asks for its steps alone: each request is made for one of them, on the
store that the steps before it leave.  But for the prompt, a request has the
parameters of its step, less those that the engine keeps for itself.
-/

namespace Workflow

variable {name : String}

/-- Whether a step with these references keeps a parameter from its provider. -/
def Deferred.withholds (deferred : Deferred) (name : String) : Bool :=
  Text.startsWith Resolve.internalMarker name || name == "prePrompt" ||
    (name == "overlays" && !deferred.overlays.isEmpty)

namespace Resolve

variable {scope : Scope} {store : Store} {params resolved : Params}

theorem get?_visible (params : Params) :
    (visible params).get? name =
      if Text.startsWith internalMarker name then none else params.get? name := by
  rw [visible, KeyMap.get?_filter_name]
  cases Text.startsWith internalMarker name <;> rfl

theorem get?_prompt {reference : Option PromptRef} {separator : String}
    (made : prompt scope store params reference separator = .ok resolved)
    (other : name ≠ "prompt") :
    resolved.get? name = if name = "prePrompt" then none else params.get? name := by
  obtain ⟨body, -, made⟩ := Outcome.bind_eq_ok.mp made
  split at made
  · obtain rfl := Outcome.pure_eq_ok.mp made
    rw [KeyMap.get?_insert, if_neg other, KeyMap.get?_erase]
  · obtain rfl := Outcome.pure_eq_ok.mp made
    rw [KeyMap.get?_erase]

end Resolve

/-- Resolving changes the prompt and takes parameters away, but does nothing else
to them. -/
theorem Deferred.get?_resolve {deferred : Deferred} {scope : Scope} {store : Store}
    {params : Params} {separator : String} {resolved : Resolved}
    (made : deferred.resolve scope store params separator = .ok resolved)
    (other : name ≠ "prompt") :
    resolved.params.get? name =
      if deferred.withholds name then none else params.get? name := by
  obtain ⟨prompted, prompt, references, -, made⟩ := by
    simpa only [resolve, Outcome.bind_eq_ok] using made
  have before : prompted.get? name =
      if name = "prePrompt" then none
      else if Text.startsWith Resolve.internalMarker name then none else params.get? name := by
    rw [Resolve.get?_prompt prompt other, Resolve.get?_visible]
  unfold withholds
  split at made
  · rename_i bare
    obtain rfl := Outcome.pure_eq_ok.mp made
    rw [before]
    by_cases isPrePrompt : name = "prePrompt" <;> simp [isPrePrompt, bare]
  · rename_i overlaid
    obtain ⟨overlays, -, made⟩ := Outcome.bind_eq_ok.mp made
    obtain rfl := Outcome.pure_eq_ok.mp made
    rw [KeyMap.get?_erase, before]
    by_cases isOverlays : name = "overlays" <;> by_cases isPrePrompt : name = "prePrompt" <;>
      simp [isOverlays, isPrePrompt, overlaid]

def Step.withholds (step : Step) (name : String) : Bool :=
  (step.deferred?.getD {}).withholds name

/-- A request is made for a step with an index. -/
structure Step.Asks (step : Step) (index : Nat) (request : Request) : Prop where
  index : request.stepIndex = index
  node : request.node = step.node
  kind : request.kind = step.kind
  provider : step.provider? = some request.provider
  params : ∀ name, name ≠ "prompt" → request.params.get? name =
    if step.withholds name then none else step.requestParams.get? name

namespace Step

variable {step : Step} {index : Nat} {request : Request}

theorem withholds_iff :
    step.withholds name ↔ Text.startsWith Resolve.internalMarker name ∨ name = "prePrompt" ∨
      name = "overlays" ∧ (step.deferred?.getD {}).overlays ≠ [] := by
  simp [withholds, Deferred.withholds, or_assoc]

theorem not_marked : ∀ name ∈ ["prompt", "prePrompt", "overlays", "destination"],
    ¬Text.startsWith Resolve.internalMarker name := by
  decide +kernel

theorem get?_requestParams {params : Params} (has : step.params? = some params)
    (other : step.kind = .save → name ≠ "destination") :
    step.requestParams.get? name = params.get? name := by
  cases step with
  | save s =>
      obtain rfl := Option.some.inj has
      rw [requestParams, KeyMap.get?_insert, if_neg (other rfl)]
  | generate _ | transform _ | vision _ | text _ =>
      obtain rfl := Option.some.inj has
      rfl
  | fanOut _ | collect _ | router _ => cases has

/-- But for the prompt and what is withheld, a provider that a schema is looked up for
gets the parameters of the step. -/
theorem Asks.value?_eq {params : Params} (asks : step.Asks index request)
    (has : step.params? = some params) (backed : step.kind.isProviderBacked)
    (notPrompt : name ≠ "prompt") :
    request.params.value? name = if step.withholds name then none else params.value? name := by
  have notSave : step.kind = .save → name ≠ "destination" := by
    intro isSave
    rw [isSave] at backed
    cases backed
  rw [Params.value?, asks.params name notPrompt, get?_requestParams has notSave]
  split <;> rfl

theorem Asks.unmarked (asks : step.Asks index request)
    (present : (request.params.get? name).isSome) :
    ¬Text.startsWith Resolve.internalMarker name ∧ name ≠ "prePrompt" := by
  by_cases isPrompt : name = "prompt"
  · subst isPrompt
    exact ⟨not_marked "prompt" (by decide), by decide⟩
  · rw [asks.params name isPrompt] at present
    split at present
    · cases present
    · rename_i passed
      rw [withholds_iff] at passed
      exact ⟨fun starts => passed (Or.inl starts), fun same => passed (Or.inr (Or.inl same))⟩

theorem Asks.destination {s : SaveStep} (asks : (save s).Asks index request) :
    request.params.get? "destination" = some (.string s.destination) := by
  have passed : ¬(save s).withholds "destination" := by
    rw [withholds_iff]
    simp [not_marked "destination"]
  rw [asks.params _ (by decide), if_neg passed, requestParams, KeyMap.get?_insert, if_pos rfl]

end Step

namespace Run

variable {config : RunConfig} {host : Host σ} {pipeline : String} {index : Nat} {store : Store}
  {step : Step} {steps : List Step} {request : Request}

theorem request_asks {provider : String} (named : step.provider? = some provider)
    (made : Run.request config (step.scope index) store step provider = .ok request) :
    step.Asks index request := by
  obtain ⟨input, -, context, -, resolved, resolves, rfl⟩ := by
    simpa only [Run.request, Outcome.bind_eq_ok, Outcome.pure_eq_ok] using made
  exact {
    index := rfl
    node := rfl
    kind := rfl
    provider := named
    params := fun name other => Deferred.get?_resolve resolves other }

theorem action_asks (made : action config index store step = .ok (.ask request)) :
    step.Asks index request := by
  cases step with
  | fanOut _ | collect _ | router _ =>
      obtain ⟨_, -, impossible⟩ := Outcome.map_eq_ok.mp made
      cases impossible
  | generate _ | transform _ | save _ | vision _ | text _ =>
      obtain ⟨_, asks, same⟩ := Outcome.map_eq_ok.mp made
      obtain rfl := Action.ask.inj same
      exact request_asks rfl asks

variable {start after : Progress σ}

@[simp] theorem requests_emit (config : RunConfig) (event : Event) (progress : Progress σ) :
    (emit config event progress).requests = progress.requests := by
  unfold emit
  split <;> rfl

theorem mem_requested :
    request ∈ requested config index store step ↔
      action config index store step = .ok (.ask request) := by
  unfold requested
  split
  · rename_i other acts
    rw [acts, List.mem_singleton]
    constructor
    · rintro rfl
      rfl
    · intro same
      exact (Action.ask.inj (Except.ok.inj same)).symm
  · rename_i notAsked
    constructor
    · intro member
      exact absurd member List.not_mem_nil
    · intro acts
      exact absurd acts (notAsked request)

theorem Turn.requests {result : Except RunError Unit}
    (turn : Turn config host index step start result after) :
    after.requests = start.requests ++ requested config index start.store step := by
  cases turn <;> rfl

theorem mem_requests_of_runSteps (index : Nat) (start : Progress σ)
    (made : request ∈ (runSteps config host pipeline index steps start).2.requests) :
    request ∈ start.requests ∨
      ∃ done step before, steps[done]? = some step ∧
        runSteps config host pipeline index (steps.take done) start = (.ok (), before) ∧
          action config (index + done) before.store step = .ok (.ask request) := by
  induction steps generalizing index start with
  | nil => exact Or.inl made
  | cons step steps induction =>
      have byFirst : ∀ state, request ∈ start.requests ++
            requested config index ({ start with host := state } : Progress σ).store step →
          request ∈ start.requests ∨
            ∃ done later before, (step :: steps)[done]? = some later ∧
              runSteps config host pipeline index ((step :: steps).take done) start =
                (.ok (), before) ∧
                action config (index + done) before.store later = .ok (.ask request) := by
        intro state member
        refine (List.mem_append.mp member).imp_right ?_
        intro asked
        exact ⟨0, step, start, rfl, rfl, mem_requested.mp asked⟩
      have opening := runSteps_opening config host pipeline index step steps start
      generalize (runSteps config host pipeline index (step :: steps) start).1 = result at opening
      generalize (runSteps config host pipeline index (step :: steps) start).2 = last
        at opening made
      cases opening with
      | cancelled polled => exact Or.inl made
      | @stopped state _ _ polled turn =>
          have first := turn.requests
          exact byFirst state (first ▸ made)
      | @passed state next last result polled passes rest =>
          have onward := induction (index + 1) next (by rw [rest]; exact made)
          rcases onward with earlier | later
          · rw [(turn_of_runStep passes).requests] at earlier
            exact byFirst state earlier
          · obtain ⟨done, later, before, found, runs, acts⟩ := later
            have place : index + 1 + done = index + (done + 1) := by omega
            refine Or.inr ⟨done + 1, later, before, found, ?_, place ▸ acts⟩
            rw [List.take_succ_cons, runSteps_cons pipeline polled passes]
            exact runs

end Run

namespace Pipeline

variable {pipeline : Pipeline} {config : RunConfig} {host : Host σ} {initial : KeyMap Value}
  {state : σ} {request : Request}

theorem requests_start (pipeline : Pipeline) (config : RunConfig) (initial : KeyMap Value)
    (state : σ) : (pipeline.start config initial state).requests = [] :=
  Run.requests_emit ..

theorem requests_execute (pipeline : Pipeline) (config : RunConfig) (host : Host σ)
    (initial : KeyMap Value) (state : σ) :
    (pipeline.execute config host initial state).2.requests =
      (Run.runSteps config host pipeline.name 0 pipeline.steps
        (pipeline.start config initial state)).2.requests := by
  rw [execute_eq]
  rcases Run.runSteps config host pipeline.name 0 pipeline.steps
    (pipeline.start config initial state) with ⟨error | _, last⟩
  · rfl
  · exact Run.requests_emit ..

/-- A request of a run is asked by the step with its index, on the store that the
steps before that one leave. -/
theorem mem_requests_of_execute
    (made : request ∈ (pipeline.execute config host initial state).2.requests) :
    ∃ step before, pipeline.steps[request.stepIndex]? = some step ∧
      pipeline.runFirst config host initial state request.stepIndex = (.ok (), before) ∧
        Run.action config request.stepIndex before.store step = .ok (.ask request) := by
  rw [requests_execute] at made
  rcases Run.mem_requests_of_runSteps 0 _ made with earlier | asked
  · rw [requests_start] at earlier
    exact absurd earlier List.not_mem_nil
  · obtain ⟨done, step, before, found, runs, acts⟩ := asked
    rw [Nat.zero_add] at acts
    obtain rfl : request.stepIndex = done := (Run.action_asks acts).index
    exact ⟨step, before, found, runs, acts⟩

theorem stepIndex_lt_of_runFirst {count : Nat}
    (made : request ∈ (pipeline.runFirst config host initial state count).2.requests) :
    request.stepIndex < count := by
  rcases Run.mem_requests_of_runSteps 0 _ made with earlier | asked
  · rw [requests_start] at earlier
    exact absurd earlier List.not_mem_nil
  · obtain ⟨done, step, before, found, -, acts⟩ := asked
    obtain ⟨within, -⟩ := List.getElem?_eq_some_iff.mp found
    rw [List.length_take] at within
    have place : request.stepIndex = 0 + done := (Run.action_asks acts).index
    omega

end Pipeline

end Workflow
