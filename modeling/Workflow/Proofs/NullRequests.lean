import Workflow.Proofs.NullParameters
import Workflow.Proofs.Parameters

/-!
# Null parameters of runs

Resolving the references of a step commutes with taking the nulls away, so the two
requests of a step with and without its nulls differ in nulls only.  A host that
overlooks nulls then answers both alike, step after step, and the two runs end in the
same way.
-/

namespace Workflow

namespace Resolve

variable (scope : Scope) (store : Store) (params : Params)

theorem visible_withoutNulls : visible params.withoutNulls = (visible params).withoutNulls :=
  params.filter_withoutNulls fun name => !Text.startsWith internalMarker name

theorem string?_withoutNulls (name : String) :
    (params.withoutNulls.get? name).bind Json.string? = (params.get? name).bind Json.string? := by
  rw [Params.get?_withoutNulls, Params.value?]
  cases params.get? name with
  | none => rfl
  | some value => cases value <;> rfl

theorem overlaySettings_withoutNulls :
    overlaySettings params.withoutNulls = overlaySettings params := by
  unfold overlaySettings
  rw [Params.get?_withoutNulls, Params.value?]
  cases params.get? "overlays" with
  | none => rfl
  | some value => cases value <;> rfl

theorem prompt_withoutNulls (reference : Option PromptRef) (separator : String) :
    prompt scope store params.withoutNulls reference separator =
      (prompt scope store params reference separator).map Params.withoutNulls := by
  have body : promptBody scope store params.withoutNulls reference =
      promptBody scope store params reference := by
    cases reference with
    | some reference => rfl
    | none => simp only [promptBody, string?_withoutNulls]
  simp only [prompt, prePrompt?, body, string?_withoutNulls, Params.erase_withoutNulls,
    Outcome.map_bind]
  refine congrArg _ (funext fun body => ?_)
  split
  · exact congrArg Except.ok (Params.insert_withoutNulls _ "prompt" Bool.false_ne_true)
  · rfl

end Resolve

def Resolved.withoutNulls (resolved : Resolved) : Resolved :=
  { resolved with params := resolved.params.withoutNulls }

theorem Deferred.resolve_withoutNulls (deferred : Deferred) (scope : Scope) (store : Store)
    (params : Params) (separator : String) :
    deferred.resolve scope store params.withoutNulls separator =
      (deferred.resolve scope store params separator).map Resolved.withoutNulls := by
  simp only [resolve, Resolve.visible_withoutNulls, Resolve.prompt_withoutNulls,
    Resolve.overlaySettings_withoutNulls, Params.erase_withoutNulls, Outcome.map_bind,
    Outcome.bind_map]
  refine congrArg _ (funext fun prompted => congrArg _ (funext fun references => ?_))
  split
  · rfl
  · rw [Outcome.map_bind]
    rfl

def Request.withoutNulls (request : Request) : Request :=
  { request with params := request.params.withoutNulls }

theorem Request.withoutNulls_withoutNulls (request : Request) :
    request.withoutNulls.withoutNulls = request.withoutNulls := by
  simp only [withoutNulls, Params.withoutNulls_withoutNulls]

def Action.withoutNulls : Action → Action
  | bind bindings => bind bindings
  | ask request => ask request.withoutNulls

theorem Step.requestParams_withoutNulls (step : Step) :
    step.withoutNulls.requestParams = step.requestParams.withoutNulls := by
  cases step with
  | save s => exact s.params.insert_withoutNulls "destination" Bool.false_ne_true
  | generate _ | transform _ | vision _ | text _ | fanOut _ | collect _ | router _ => rfl

namespace Run

variable (config : RunConfig) (index : Nat) (store : Store) (step : Step)

theorem request_withoutNulls (scope : Scope) (provider : String) :
    request config scope store step.withoutNulls provider =
      (request config scope store step provider).map Request.withoutNulls := by
  have input : input scope store step.withoutNulls = input scope store step := by
    cases step <;> rfl
  have context : context scope store step.withoutNulls = context scope store step := by
    cases step <;> rfl
  simp only [request, input, context, Step.deferred?_withoutNulls, Step.requestParams_withoutNulls,
    Deferred.resolve_withoutNulls, Outcome.map_bind, Outcome.bind_map]
  rfl

/-- A step without nulls comes to the same, but for the nulls of its request. -/
theorem action_withoutNulls :
    action config index store step.withoutNulls =
      (action config index store step).map Action.withoutNulls := by
  have asks : ∀ provider, (request config (step.scope index) store step.withoutNulls
        provider).map Action.ask =
      ((request config (step.scope index) store step provider).map Action.ask).map
        Action.withoutNulls := by
    intro provider
    rw [request_withoutNulls]
    cases request config (step.scope index) store step provider <;> rfl
  have binds : ∀ flow : Except RunError Bindings,
      flow.map Action.bind = (flow.map Action.bind).map Action.withoutNulls := by
    intro flow
    cases flow <;> rfl
  cases step with
  | generate s => exact asks s.generator
  | transform s => exact asks s.operation
  | save s => exact asks s.provider
  | vision s => exact asks s.provider
  | text s => exact asks s.provider
  | fanOut s => exact binds _
  | collect s => exact binds _
  | router s => exact binds _

end Run

/-- A host does not look at the nulls of requests.  Whatever it keeps in its state is
alike after alike requests. -/
structure Host.Overlooks (host : Host σ) (alike : σ → σ → Prop) : Prop where
  replies : ∀ {state other : σ} {request counterpart : Request}, alike state other →
    request.withoutNulls = counterpart.withoutNulls →
      (host.serve state request).1 = (host.serve other counterpart).1
  serves : ∀ {state other : σ} {request counterpart : Request}, alike state other →
    request.withoutNulls = counterpart.withoutNulls →
      alike (host.serve state request).2 (host.serve other counterpart).2
  cancels : ∀ {state other : σ}, alike state other →
    (host.poll state).1 = (host.poll other).1
  polls : ∀ {state other : σ}, alike state other →
    alike (host.poll state).2 (host.poll other).2

/-- Two runs have come to the same, but for the nulls of their requests. -/
structure Progress.Matches (alike : σ → σ → Prop) (progress other : Progress σ) : Prop where
  store : other.store = progress.store
  artifacts : other.artifacts = progress.artifacts
  events : other.events = progress.events
  requests : other.requests.map Request.withoutNulls =
    progress.requests.map Request.withoutNulls
  host : alike progress.host other.host

/-- Two computations of runs have the same outcome and come to the same. -/
inductive Parallel (alike : σ → σ → Prop) :
    Except RunError α × Progress σ → Except RunError α × Progress σ → Prop
  | intro (outcome : Except RunError α) {progress other : Progress σ} :
      progress.Matches alike other → Parallel alike (outcome, progress) (outcome, other)

namespace Parallel

variable {alike : σ → σ → Prop} {here there : Except RunError α × Progress σ}

theorem outcome (parallel : Parallel alike here there) : there.1 = here.1 := by
  cases parallel
  rfl

theorem agree (parallel : Parallel alike here there) : here.2.Matches alike there.2 := by
  cases parallel
  assumption

end Parallel

namespace Run

variable {alike : σ → σ → Prop} {progress other : Progress σ} {host : Host σ}

theorem emit_matches (config : RunConfig) (event : Event)
    (agree : progress.Matches alike other) :
    (emit config event progress).Matches alike (emit config event other) := by
  unfold emit
  split
  · exact { agree with events := congrArg (· ++ [event]) agree.events }
  · exact agree

theorem asked_matches (request : Request) {state counterpart : σ}
    (agree : progress.Matches alike other) (states : alike state counterpart) :
    Progress.Matches alike
      { progress with requests := progress.requests ++ [request], host := state }
      { other with
        requests := other.requests ++ [request.withoutNulls], host := counterpart } := by
  refine ⟨agree.store, agree.artifacts, agree.events, ?_, states⟩
  simp only [List.map_append, agree.requests, List.map_cons, List.map_nil,
    Request.withoutNulls_withoutNulls]

theorem recorded_matches (records : List Artifact) (agree : progress.Matches alike other) :
    Progress.Matches alike
      { progress with artifacts := progress.artifacts ++ records }
      { other with artifacts := other.artifacts ++ records } :=
  { agree with artifacts := congrArg (· ++ records) agree.artifacts }

theorem perform_parallel (config : RunConfig) (overlooks : host.Overlooks alike) (index : Nat)
    (step : Step) (agree : progress.Matches alike other) :
    Parallel alike (perform config host index step progress)
      (perform config host index step.withoutNulls other) := by
  unfold perform
  rw [agree.store, action_withoutNulls]
  rcases action config index progress.store step with error | bindings | request
  · exact .intro _ agree
  · exact .intro _ agree
  · have same : request.withoutNulls = request.withoutNulls.withoutNulls :=
      request.withoutNulls_withoutNulls.symm
    have answer : replyBindings config index step.withoutNulls =
        replyBindings config index step := by
      cases step <;> rfl
    have asked := asked_matches request agree (overlooks.serves agree.host same)
    rw [agree.store] at asked
    simp only [Except.map, Action.withoutNulls, answer, ← overlooks.replies agree.host same]
    exact .intro _ asked

theorem commit_parallel (index : Nat) (step : Step) (bindings : Bindings)
    (agree : progress.Matches alike other) :
    Parallel alike (commit index step bindings progress)
      (commit index step.withoutNulls bindings other) := by
  induction bindings generalizing progress other with
  | nil => exact .intro _ agree
  | cons binding bindings induction =>
      obtain ⟨name, value⟩ := binding
      simp only [commit, Step.kind_withoutNulls, Step.node_withoutNulls, agree.store]
      generalize (if step.kind.isProviderBacked then _ else _) = records
      have recorded := recorded_matches records agree
      cases progress.store.bind name value with
      | error error =>
          rw [agree.store] at recorded
          exact .intro _ recorded
      | ok store => exact induction { recorded with store := rfl }

theorem runStep_parallel (config : RunConfig) (overlooks : host.Overlooks alike) (index : Nat)
    (step : Step) (agree : progress.Matches alike other) :
    Parallel alike (runStep config host index step progress)
      (runStep config host index step.withoutNulls other) := by
  have started := emit_matches config (.stepStarted index step.node step.kind) agree
  have performed := perform_parallel config overlooks index step started
  simp only [runStep, Step.kind_withoutNulls, Step.node_withoutNulls]
  generalize perform config host index step _ = here at performed ⊢
  generalize perform config host index step.withoutNulls _ = there at performed ⊢
  obtain ⟨error | bindings, performed⟩ := performed
  · exact .intro _ (emit_matches config _ performed)
  · have committed := commit_parallel index step bindings performed
    dsimp only
    generalize commit index step bindings _ = here at committed ⊢
    generalize commit index step.withoutNulls bindings _ = there at committed ⊢
    obtain ⟨error | done, committed⟩ := committed
    · exact .intro _ committed
    · exact .intro _ (emit_matches config _ committed)

theorem runSteps_parallel (config : RunConfig) (overlooks : host.Overlooks alike)
    (pipeline : String) (index : Nat) (steps : List Step) (agree : progress.Matches alike other) :
    Parallel alike (runSteps config host pipeline index steps progress)
      (runSteps config host pipeline index (steps.map Step.withoutNulls) other) := by
  induction steps generalizing index progress other with
  | nil => exact .intro _ agree
  | cons step steps induction =>
      have polled : Progress.Matches alike
          { progress with host := (host.poll progress.host).2 }
          { other with host := (host.poll other.host).2 } :=
        { agree with host := overlooks.polls agree.host }
      have cancels := overlooks.cancels agree.host
      rw [List.map_cons]
      unfold runSteps
      generalize host.poll progress.host = here at polled cancels ⊢
      generalize host.poll other.host = there at polled cancels ⊢
      obtain ⟨reason, here⟩ := here
      obtain ⟨_, there⟩ := there
      obtain rfl : reason = _ := cancels
      cases reason with
      | some reason => exact .intro _ (emit_matches config _ polled)
      | none =>
          have ran := runStep_parallel config overlooks index step polled
          dsimp only at ran ⊢
          generalize runStep config host index step _ = here at ran ⊢
          generalize runStep config host index step.withoutNulls _ = there at ran ⊢
          obtain ⟨error | done, ran⟩ := ran
          · exact .intro _ (emit_matches config _ ran)
          · exact induction (index + 1) ran

end Run

/-- A host that overlooks nulls makes a pipeline end with and without its nulls in the
same way. -/
theorem Pipeline.execute_withoutNulls (pipeline : Pipeline) (config : RunConfig) {host : Host σ}
    {alike : σ → σ → Prop} (overlooks : host.Overlooks alike) (initial : KeyMap Value)
    {state other : σ} (agree : alike state other) :
    Parallel alike (pipeline.execute config host initial state)
      (pipeline.withoutNulls.execute config host initial other) := by
  have opened : Progress.Matches alike { store := .ofInitial initial, host := state }
      { store := .ofInitial initial, host := other } :=
    ⟨rfl, rfl, rfl, rfl, agree⟩
  have started := Run.emit_matches config (.started pipeline.name pipeline.steps.length) opened
  have ran := Run.runSteps_parallel config overlooks pipeline.name 0 pipeline.steps started
  have lengths : pipeline.withoutNulls.steps.length = pipeline.steps.length := List.length_map _
  simp only [execute, lengths]
  rw [show pipeline.withoutNulls.steps = pipeline.steps.map Step.withoutNulls from rfl,
    show pipeline.withoutNulls.name = pipeline.name from rfl]
  generalize Run.runSteps config host pipeline.name 0 pipeline.steps _ = here at ran ⊢
  generalize Run.runSteps config host pipeline.name 0 (pipeline.steps.map Step.withoutNulls) _ =
    there at ran ⊢
  obtain ⟨error | done, ran⟩ := ran
  · exact .intro _ ran
  · dsimp only
    rw [ran.store, ran.artifacts]
    exact .intro _ (Run.emit_matches config _ ran)

/-- A `null` parameter of a node is as good as none.  The two graphs are compiled to the
same, but for nulls, or refused for the same reason; the same is wrong with both
pipelines; and where the host overlooks nulls, their runs make the same requests, but
for nulls, and end alike. -/
theorem Graph.nulls_are_absent (graph : Graph) (name : String) :
    (∃ error, graph.compile name = .error error ∧
      graph.withoutNulls.compile name = .error error) ∨
    ∃ compiled other, graph.compile name = .ok compiled ∧
      graph.withoutNulls.compile name = .ok other ∧
      other.withoutNulls = compiled.withoutNulls ∧
      (∀ registry options, other.pipeline.validate registry options =
        compiled.pipeline.validate registry options) ∧
      ∀ (σ : Type) (host : Host σ) (alike : σ → σ → Prop), host.Overlooks alike →
        ∀ config initial state counterpart, alike state counterpart →
          (other.pipeline.execute config host initial counterpart).1 =
              (compiled.pipeline.execute config host initial state).1 ∧
            (other.pipeline.execute config host initial counterpart).2.requests.map
                Request.withoutNulls =
              (compiled.pipeline.execute config host initial state).2.requests.map
                Request.withoutNulls := by
  rw [graph.compile_withoutNulls]
  cases graph.compile name with
  | error error => exact .inl ⟨error, rfl, rfl⟩
  | ok compiled =>
      refine .inr ⟨compiled, compiled.withoutNulls, rfl, rfl, ?_, ?_, ?_⟩
      · simp only [Compiled.withoutNulls, Pipeline.withoutNulls_withoutNulls]
      · intro registry options
        exact compiled.pipeline.validate_withoutNulls registry options
      · intro σ host alike overlooks config initial state counterpart agree
        have ends := compiled.pipeline.execute_withoutNulls config overlooks initial agree
        exact ⟨ends.outcome, ends.agree.requests⟩

theorem Script.host_overlooks (script : Script) (during : KeyMap String) :
    (Script.host script.reply during).Overlooks Eq := by
  have node : ∀ {request counterpart : Request},
      request.withoutNulls = counterpart.withoutNulls → request.node = counterpart.node := by
    intro request counterpart same
    exact (congrArg Request.node same :)
  constructor
  · rintro state _ request counterpart rfl same
    have kind : request.kind = counterpart.kind := (congrArg Request.kind same :)
    have provider : request.provider = counterpart.provider :=
      (congrArg Request.provider same :)
    simp only [host, reply, defaultOutput, node same, kind, provider]
  · rintro state _ request counterpart rfl same
    simp only [host, node same]
  · rintro state _ rfl
    rfl
  · rintro state _ rfl
    rfl

/-- The transformation's provider is told of the strength that is `null`, unless the
node has none; both runs end alike. -/
theorem keepsake_nulls_are_absent :
    ∃ compiled other, Graph.keepsake.compile "album" = .ok compiled ∧
      Graph.keepsake.withoutNulls.compile "album" = .ok other ∧ other ≠ compiled ∧
        (other.pipeline.execute {} (Script.host ({} : Script).reply ∅)
            (.single "photo" (.image {})) {}).1 =
          (compiled.pipeline.execute {} (Script.host ({} : Script).reply ∅)
            (.single "photo" (.image {})) {}).1 := by
  have compiles : (Graph.keepsake.compile "album").toOption.isSome := by decide +kernel
  have differ : Graph.keepsake.withoutNulls.compile "album" ≠ Graph.keepsake.compile "album" := by
    decide +kernel
  rcases Graph.keepsake.nulls_are_absent "album" with
    ⟨error, refused, -⟩ | ⟨compiled, other, first, second, -, -, ends⟩
  · rw [refused] at compiles
    cases compiles
  · refine ⟨compiled, other, first, second, ?_, ?_⟩
    · rintro rfl
      exact differ (second.trans first.symm)
    · exact (ends Token _ Eq (Script.host_overlooks {} ∅) {} _ {} {} rfl).1

end Workflow
