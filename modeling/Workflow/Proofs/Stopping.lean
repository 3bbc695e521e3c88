import Workflow.Proofs.Cancellation
import Workflow.Proofs.Pictures

/-!
# Where runs stop

A run asks once for each of its steps that asks at all, one step after the other, up to the
step that it stops at.  The error then tells of that step, which has asked if and only if
the error is about the answer.
-/

namespace Workflow

namespace RunError

/-- The kind of the step that an error belongs to, where it tells one. -/
def kind? : RunError → Option StepKind
  | missingVariable scope _ | missingImages scope _ _ | unexpectedValue scope _ _ _
  | missingField scope _ _ | stepFailed scope _ _ | emptyOutput scope => some scope.kind
  | lengthMismatch _ _ _ _ _ | collectIncomplete _ _ _ | selection _ _ _ | variableConflict _
  | cancelled _ _ => none

/-- The error is about the answer to a request. -/
def OfAnswer : RunError → Prop
  | stepFailed _ _ _ | emptyOutput _ => True
  | missingVariable _ _ | missingImages _ _ _ | unexpectedValue _ _ _ _ | missingField _ _ _
  | lengthMismatch _ _ _ _ _ | collectIncomplete _ _ _ | selection _ _ _ | variableConflict _
  | cancelled _ _ => False

theorem Blames.kind? {scope : Scope} {error : RunError} (blames : error.Blames scope) :
    ∀ kind, error.kind? = some kind → kind = scope.kind := by
  cases error <;> simp_all [RunError.Blames, RunError.kind?]

end RunError

/-- The computation is not refused on account of an answer. -/
def Unanswered (computation : Except RunError α) : Prop :=
  ∀ error, computation = .error error → ¬error.OfAnswer

namespace Unanswered

variable {computation : Except RunError α}

@[simp] theorem ok (value : α) : Unanswered (.ok value) := by
  intro error failed
  cases failed

@[simp] theorem pure (value : α) : Unanswered (pure value) :=
  ok value

theorem bind {next : α → Except RunError β} (first : Unanswered computation)
    (rest : ∀ value, Unanswered (next value)) : Unanswered (computation >>= next) := by
  intro error failed
  rcases Outcome.bind_eq_error.mp failed with refused | ⟨value, -, refused⟩
  · exact first error refused
  · exact rest value error refused

theorem map {change : α → β} (first : Unanswered computation) :
    Unanswered (computation.map change) := by
  intro error failed
  exact first error (Outcome.map_eq_error.mp failed)

theorem refusal {error : RunError} (early : ¬error.OfAnswer) :
    Unanswered (.error error : Except RunError α) := by
  intro other failed
  rw [← Except.error.inj failed]
  exact early

end Unanswered

variable {scope : Scope} {store : Store}

namespace Scope

theorem unanswered_read (name : String) : Unanswered (scope.read store name) := by
  unfold read
  split
  · exact .ok _
  · exact .refusal id

theorem unanswered_structured (name : String) (value : Value) :
    Unanswered (scope.structured name value) := by
  unfold structured
  split
  · exact .ok _
  · exact .refusal id

theorem unanswered_path (name : String) (content : Json) (path : String) :
    Unanswered (scope.path name content path) := by
  unfold Scope.path
  split
  · exact .ok _
  · exact .refusal id

theorem unanswered_field (name field : String) : Unanswered (scope.field store name field) := by
  apply (unanswered_read name).bind
  intro value
  apply (unanswered_structured name value).bind
  intro content
  exact unanswered_path name content field

end Scope

namespace Resolve

theorem unanswered_prompt (params : Params) (reference : Option PromptRef) (separator : String) :
    Unanswered (prompt scope store params reference separator) := by
  have body : Unanswered (promptBody scope store params reference) := by
    cases reference with
    | none => exact .ok _
    | some reference =>
        apply Unanswered.map
        unfold promptContent
        cases reference.field with
        | some field => exact (Scope.unanswered_field reference.name field).map
        | none =>
            apply (Scope.unanswered_read reference.name).bind
            intro value
            cases value.textContent? with
            | some text => exact .ok text
            | none => exact .refusal id
  apply body.bind
  intro text
  cases joinPrompt separator (prePrompt? params) text with
  | some _ => exact .ok _
  | none => exact .ok _

theorem unanswered_images (references : List ImageRef) :
    Unanswered (images scope store references) := by
  induction references with
  | nil => exact .ok []
  | cons reference rest induction =>
      unfold images
      split
      · exact induction
      · split
        · exact .refusal id
        · exact induction.map

theorem unanswered_boundOverlays (settings : List Json) (references : List ImageRef) :
    Unanswered (boundOverlays scope store settings references) := by
  intro error failed
  exact unanswered_images references error (boundOverlays_eq_error.mp failed)

theorem unanswered_bound (port : ImagePort) (references : List ImageRef)
    {lookedUp : Except RunError α} (first : Unanswered lookedUp) :
    Unanswered (do
      let found ← lookedUp
      match unbound store references with
      | [] => return found
      | missing => throw (.missingImages scope port missing)) := by
  apply first.bind
  intro found
  split
  · exact .ok found
  · exact .refusal id

end Resolve

theorem Deferred.unanswered_resolve (deferred : Deferred) (params : Params)
    (separator : String) : Unanswered (deferred.resolve scope store params separator) := by
  apply (Resolve.unanswered_prompt _ _ _).bind
  intro prompted
  apply (Resolve.unanswered_bound .references _ (Resolve.unanswered_images _)).bind
  intro images
  split
  · exact .ok _
  · apply (Resolve.unanswered_bound .overlays _ (Resolve.unanswered_boundOverlays _ _)).bind
    intro overlays
    exact .ok _

namespace Flow

theorem unanswered_arrayItems (name : String) (content : Json) :
    Unanswered (arrayItems scope name content) := by
  unfold arrayItems
  split
  · exact .ok _
  · exact .refusal id

theorem unanswered_elements (name : String) (value : Value) (property : Option String) :
    Unanswered (elements scope name value property) := by
  unfold elements
  split
  · apply (Scope.unanswered_structured name value).bind
    intro content
    apply (Scope.unanswered_path name content _).bind
    intro array
    exact unanswered_arrayItems name array
  · split
    · exact .ok _
    · apply (Scope.unanswered_structured name value).bind
      intro content
      exact unanswered_arrayItems name content

theorem unanswered_fanOut (step : FanOutStep) : Unanswered (fanOut scope store step) := by
  have filled : ∀ value, Unanswered (slots scope step value) := by
    intro value
    unfold slots
    split
    · exact .ok _
    · apply (unanswered_elements step.input value step.arrayProperty).bind
      intro items
      split
      · exact .ok items
      · exact .refusal id
  apply (Scope.unanswered_read step.input).bind
  intro value
  apply (filled value).bind
  intro values
  exact .ok _

theorem unanswered_collect (step : CollectStep) : Unanswered (collect scope store step) := by
  unfold collect
  simp only
  split
  · exact .refusal id
  · exact .ok _

theorem unanswered_selection (step : RouterStep) : Unanswered (selection scope store step) := by
  unfold selection
  split
  · exact Scope.unanswered_field step.selectionInput _
  · apply (Scope.unanswered_read step.selectionInput).bind
    intro value
    split
    · exact .ok _
    · exact .refusal id

theorem unanswered_context (step : RouterStep) : Unanswered (context scope store step) := by
  unfold context
  split
  · exact (Scope.unanswered_field step.selectionInput _).map
  · exact .ok _

theorem unanswered_route (step : RouterStep) : Unanswered (route scope store step) := by
  apply (Scope.unanswered_read step.input).bind
  intro value
  apply (unanswered_selection step).bind
  intro content
  split
  · exact .refusal id
  · exact .refusal id
  · apply (unanswered_context step).bind
    intro further
    exact .ok _

end Flow

namespace Run

variable {config : RunConfig} {index : Nat} {step : Step}

theorem unanswered_input (step : Step) : Unanswered (input scope store step) := by
  unfold input
  split
  · exact .ok none
  · apply (Scope.unanswered_read _).bind
    intro value
    split
    · exact .refusal id
    · exact .ok _

theorem unanswered_context (step : Step) : Unanswered (context scope store step) := by
  unfold context
  split
  · exact .ok none
  · exact (Scope.unanswered_read _).map

theorem unanswered_request (config : RunConfig) (step : Step) (provider : String) :
    Unanswered (request config scope store step provider) := by
  apply (unanswered_input step).bind
  intro input
  apply (unanswered_context step).bind
  intro context
  apply (Deferred.unanswered_resolve _ _ _).bind
  intro resolved
  exact .ok _

/-- What a step comes to without an answer is not refused on account of one. -/
theorem unanswered_action (config : RunConfig) (index : Nat) (store : Store) (step : Step) :
    Unanswered (action config index store step) := by
  cases step with
  | fanOut s => exact (Flow.unanswered_fanOut s).map
  | collect s => exact (Flow.unanswered_collect s).map
  | router s => exact (Flow.unanswered_route s).map
  | generate _ | transform _ | save _ | vision _ | text _ =>
      exact (unanswered_request config _ _).map

end Run

/-- Whether a step asks a provider: those do that have a schema, and those that save. -/
def Step.asks (step : Step) : Bool :=
  step.kind.isProviderBacked || step.kind == .save

/-- The steps that ask, each with its index, where the first step has the given one. -/
def Step.askers (index : Nat) (steps : List Step) : List (Step × Nat) :=
  (steps.zipIdx index).filter fun place => place.1.asks

/-- One request for each of these steps, in their order. -/
def Asked (askers : List (Step × Nat)) (requests : List Request) : Prop :=
  List.Forall₂ (fun place request => place.1.Asks place.2 request) askers requests

variable {step : Step} {steps : List Step}

theorem Step.asks_eq (step : Step) : step.asks = !step.kind.isFlowControl := by
  cases step <;> rfl

theorem Step.askers_cons (index : Nat) (step : Step) (steps : List Step) :
    Step.askers index (step :: steps) =
      Step.askers index [step] ++ Step.askers (index + 1) steps := by
  rw [askers, List.zipIdx_cons, ← List.singleton_append, List.filter_append]
  rfl

namespace Run

variable {config : RunConfig} {host : Host σ} {answer : Request → Reply} {pipeline : String}
  {index place : Nat} {start last after : Progress σ} {error : RunError}

theorem ofAnswer_replyBindings {reply : Reply}
    (failed : replyBindings config index step reply = .error error) : error.OfAnswer := by
  cases reply with
  | error failure =>
      obtain rfl := Except.error.inj failed
      exact trivial
  | ok output =>
      simp only [replyBindings, outputBindings] at failed
      split at failed
      · cases failed
      · split at failed
        · obtain rfl := Except.error.inj failed
          exact trivial
        · cases failed

theorem asked_of_made {bindings : Bindings}
    (made : outcome config answer index store step = .ok bindings) :
    Asked (Step.askers index [step]) (requested config index store step) := by
  unfold outcome at made
  cases acts : action config index store step with
  | error error =>
      rw [acts] at made
      cases made
  | ok action =>
      cases action with
      | bind bindings =>
          have silent : step.asks = false := by
            rw [Step.asks_eq, action_bind acts]
            rfl
          simp [Step.askers, requested, acts, silent, Asked]
      | ask request =>
          have speaks : step.asks = true := by
            rw [Step.asks_eq, Bool.not_eq_true']
            exact Bool.eq_false_iff.mpr (action_ask acts)
          simp [Step.askers, requested, acts, speaks, Asked, action_asks acts]

/-- A step that fails has asked if and only if it fails on account of the answer. -/
theorem asked_of_failed (failed : outcome config answer index store step = .error error) :
    (error.OfAnswer → ∃ request, step.Asks index request ∧
        requested config index store step = [request]) ∧
      (¬error.OfAnswer → requested config index store step = []) := by
  unfold outcome at failed
  unfold requested
  cases acts : action config index store step with
  | error cause =>
      rw [acts] at failed
      obtain rfl := Except.error.inj failed
      have early := unanswered_action config index store step cause acts
      exact ⟨fun late => absurd late early, fun _ => rfl⟩
  | ok action =>
      rw [acts] at failed
      cases action with
      | bind bindings => cases failed
      | ask request =>
          have late := ofAnswer_replyBindings failed
          exact ⟨fun _ => ⟨request, action_asks acts, rfl⟩, fun early => absurd late early⟩

theorem runSteps_asked (ran : runSteps config host pipeline index steps start = (.ok (), last)) :
    ∃ requests, last.requests = start.requests ++ requests ∧
      Asked (Step.askers index steps) requests := by
  induction steps generalizing index start with
  | nil =>
      obtain rfl : start = last := (Prod.ext_iff.mp ran).2
      exact ⟨[], (List.append_nil _).symm, .nil⟩
  | cons step steps induction =>
      have opening := runSteps_opening config host pipeline index step steps start
      rw [ran] at opening
      cases opening with
      | @passed state next _ _ polled passes rest =>
          have turn := turn_of_runStep passes
          obtain ⟨bindings, made, -⟩ := turn.of_ok
          obtain ⟨requests, further, asked⟩ := induction rest
          refine ⟨requested config index start.store step ++ requests, ?_, ?_⟩
          · rw [further, turn.requests, List.append_assoc]
          · rw [Step.askers_cons]
            exact List.rel_append (asked_of_made made) asked

/-- Only a step that fails before its outcome is bound has an error that tells of a step. -/
theorem Turn.of_error (turn : Turn config host index step start (.error error) after)
    (told : error.stepIndex? = some place) :
    place = index ∧
      outcome config (host.answer start.host) index start.store step = .error error := by
  cases turn with
  | failed fails =>
      have blamed := (outcome_blames fails).stepIndex?
      rw [told] at blamed
      exact ⟨Option.some.inj blamed, fails⟩
  | clashed made fresh taken => cases told

theorem exists_stopped
    (failed : runSteps config host pipeline index steps start = (.error error, last))
    (told : error.stepIndex? = some place) :
    ∃ done step before state after, place = index + done ∧ steps[done]? = some step ∧
      runSteps config host pipeline index (steps.take done) start = (.ok (), before) ∧
        Turn config host place step { before with host := state } (.error error) after ∧
          last.requests = after.requests := by
  induction steps generalizing index start with
  | nil => cases failed
  | cons step steps induction =>
      have opening := runSteps_opening config host pipeline index step steps start
      rw [failed] at opening
      cases opening with
      | cancelled polled => cases told
      | @stopped state _ after polled turn =>
          obtain ⟨rfl, -⟩ := turn.of_error told
          exact ⟨0, step, start, state, after, rfl, rfl, rfl, turn, rfl⟩
      | @passed state next _ _ polled passes rest =>
          obtain ⟨done, later, before, state, after, same, found, ran, turn⟩ := induction rest
          refine ⟨done + 1, later, before, state, after, ?_, found, ?_, turn⟩
          · omega
          · rw [List.take_succ_cons, runSteps_cons pipeline polled passes]
            exact ran

end Run

/-- The host with a record of the requests that it answers. -/
def Host.recording (host : Host σ) : Host (σ × List Request) where
  serve state request :=
    ((host.serve state.1 request).1, (host.serve state.1 request).2, state.2 ++ [request])
  poll state := ((host.poll state.1).1, (host.poll state.1).2, state.2)

/-- The progress with its requests on record. -/
def Progress.heard (progress : Progress σ) : Progress (σ × List Request) :=
  progress.withHost (progress.host, progress.requests)

theorem Host.after_recording (host : Host σ) (state : σ) (before requests : List Request) :
    host.recording.after (state, before) requests =
      (host.after state requests, before ++ requests) := by
  induction requests generalizing state before with
  | nil => rw [List.append_nil]; rfl
  | cons request requests induction =>
      have rest := induction (host.serve state request).2 (before ++ [request])
      rw [List.append_assoc] at rest
      exact rest

namespace Run

variable {config : RunConfig} {host : Host σ} {index : Nat}

theorem emit_heard (config : RunConfig) (event : Event) (progress : Progress σ) :
    emit config event progress.heard = (emit config event progress).heard := by
  rw [Progress.heard, emit_withHost, Progress.heard, host_emit, requests_emit]

theorem runStep_heard (config : RunConfig) (host : Host σ) (index : Nat) (step : Step)
    (progress : Progress σ) :
    runStep config host.recording index step progress.heard =
      ((runStep config host index step progress).1,
        (runStep config host index step progress).2.heard) := by
  have asks := (runStep_turn config host index step progress).requests
  have leaves := host_runStep config host index step progress
  have same : host.recording.answer (progress.host, progress.requests) =
      host.answer progress.host := rfl
  rw [Progress.heard, runStep_withHost config index step same, Host.after_recording,
    Progress.heard, asks, leaves]

theorem runSteps_heard (config : RunConfig) (host : Host σ) (pipeline : String) (index : Nat)
    (steps : List Step) (progress : Progress σ) :
    runSteps config host.recording pipeline index steps progress.heard =
      ((runSteps config host pipeline index steps progress).1,
        (runSteps config host pipeline index steps progress).2.heard) := by
  induction steps generalizing index progress with
  | nil => rfl
  | cons step steps induction =>
      have polls : host.recording.poll progress.heard.host =
          ((host.poll progress.host).1, (host.poll progress.host).2, progress.requests) := rfl
      have moved : ∀ state, ({ progress.heard with host := (state, progress.requests) } :
          Progress (σ × List Request)) = Progress.heard { progress with host := state } :=
        fun _ => rfl
      unfold runSteps
      rw [polls]
      rcases host.poll progress.host with ⟨_ | reason, state⟩
      · simp only [moved, runStep_heard]
        rcases runStep config host index step { progress with host := state } with
          ⟨error | _, next⟩
        · simp only [emit_heard]
        · exact induction (index + 1) next
      · simp only [moved, emit_heard]

end Run

namespace Pipeline

variable (pipeline : Pipeline) (config : RunConfig) (host : Host σ) (initial : KeyMap Value)
  (state : σ)

/-- The requests of a run are those that its host answers. -/
theorem execute_recording :
    pipeline.execute config host.recording initial (state, []) =
      ((pipeline.execute config host initial state).1,
        (pipeline.execute config host initial state).2.heard) := by
  have begun : pipeline.start config initial (state, []) =
      (pipeline.start config initial state).heard :=
    Run.emit_heard config (.started pipeline.name pipeline.steps.length)
      { store := .ofInitial initial, host := state }
  rw [execute_eq, execute_eq, begun, Run.runSteps_heard]
  rcases Run.runSteps config host pipeline.name 0 pipeline.steps
    (pipeline.start config initial state) with ⟨error | _, last⟩
  · rfl
  · simp only [Run.emit_heard]
    rfl

/-- A run stops at a step with an error.  The steps before it are done, and each of them
that asks has asked once; the step itself has asked if and only if the error is about the
answer, and no other step has. -/
structure StopsAt (error : RunError) (index : Nat) (step : Step) (before : Progress σ) :
    Prop where
  found : pipeline.steps[index]? = some step
  node : error.node? = some step.node
  kind : ∀ kind, error.kind? = some kind → kind = step.kind
  completed : pipeline.runFirst config host initial state index = (.ok (), before)
  asked : Asked (Step.askers 0 (pipeline.steps.take index)) before.requests
  answered : error.OfAnswer → ∃ request, step.Asks index request ∧
    (pipeline.execute config host initial state).2.requests = before.requests ++ [request]
  unanswered : ¬error.OfAnswer →
    (pipeline.execute config host initial state).2.requests = before.requests

/-- A run that does not succeed stops at the step that its error tells of; one that
succeeds has asked once for each step that asks.  Its requests are just those that the host
has answered. -/
theorem execute_fails_fast :
    (∀ error index, (pipeline.execute config host initial state).1 = .error error →
      error.stepIndex? = some index →
        ∃ step before, pipeline.StopsAt config host initial state error index step before) ∧
      (∀ result, (pipeline.execute config host initial state).1 = .ok result →
        Asked (Step.askers 0 pipeline.steps)
          (pipeline.execute config host initial state).2.requests) ∧
        (pipeline.execute config host.recording initial (state, [])).2.host.2 =
          (pipeline.execute config host initial state).2.requests := by
  have requests := pipeline.requests_execute config host initial state
  rcases ran : Run.runSteps config host pipeline.name 0 pipeline.steps
    (pipeline.start config initial state) with ⟨ended, last⟩
  rw [ran] at requests
  refine ⟨?_, ?_, congrArg (fun ended => ended.2.host.2)
    (pipeline.execute_recording config host initial state)⟩
  · intro error index failed told
    rw [execute_fst, ran] at failed
    obtain rfl := Outcome.map_eq_error.mp failed
    obtain ⟨done, step, before, polled, after, place, found, first, turn, asks⟩ :=
      Run.exists_stopped ran told
    obtain rfl : index = done := place.trans (Nat.zero_add done)
    obtain ⟨-, fails⟩ := turn.of_error told
    have blames := Run.outcome_blames fails
    obtain ⟨answered, unanswered⟩ := Run.asked_of_failed fails
    obtain ⟨earlier, further, asked⟩ := Run.runSteps_asked first
    rw [pipeline.requests_start, List.nil_append] at further
    rw [turn.requests] at asks
    refine ⟨step, before, found, blames.node?, blames.kind?, first, further ▸ asked, ?_, ?_⟩
    · intro late
      obtain ⟨request, made, one⟩ := answered late
      refine ⟨request, made, ?_⟩
      rw [requests, asks, one]
    · intro early
      rw [requests, asks, unanswered early, List.append_nil]
  · intro result succeeds
    rw [execute_fst, ran] at succeeds
    obtain ⟨_, rfl, -⟩ := Outcome.map_eq_ok.mp succeeds
    obtain ⟨all, further, asked⟩ := Run.runSteps_asked ran
    rw [pipeline.requests_start, List.nil_append] at further
    rw [requests, further]
    exact asked

/-- The provider of the save step has no room left, or it has. -/
theorem seascape_fails_fast :
    (∃ error step before,
      (seascape.execute {} (Script.host
        (({} : Script).withFailure "keep" { message := "no room" }).reply ∅) ∅ {}).1 =
          .error error ∧
      error.OfAnswer ∧
      seascape.StopsAt {} (Script.host
        (({} : Script).withFailure "keep" { message := "no room" }).reply ∅) ∅ {} error 1 step
          before) ∧
      ∃ result, (seascape.execute {} (Script.host ({} : Script).reply ∅) ∅ {}).1 = .ok result ∧
        Asked (Step.askers 0 seascape.steps)
          (seascape.execute {} (Script.host ({} : Script).reply ∅) ∅ {}).2.requests := by
  constructor
  · have fails : (seascape.execute {} (Script.host
        (({} : Script).withFailure "keep" { message := "no room" }).reply ∅) ∅ {}).1 =
          .error (.stepFailed { index := 1, node := "keep", kind := .save } "local"
            { message := "no room" }) := by
      decide +kernel
    obtain ⟨step, before, stops⟩ := (seascape.execute_fails_fast _ _ _ _).1 _ 1 fails rfl
    exact ⟨_, step, before, fails, trivial, stops⟩
  · have succeeds :
        (seascape.execute {} (Script.host ({} : Script).reply ∅) ∅ {}).1.toOption.isSome := by
      decide +kernel
    obtain ⟨result, success⟩ := Outcome.exists_ok succeeds
    exact ⟨result, success, (seascape.execute_fails_fast _ _ _ _).2.1 result success⟩

end Pipeline

end Workflow
