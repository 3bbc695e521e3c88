import Workflow.Proofs.Execution
import Workflow.Proofs.Trace
import Workflow.Run.Script

/-!
# What runs bind

A run adds bindings at the end of its store and changes none.  A step that
succeeds binds all that it declares, so a successful run binds the initial names
and then the outputs of its steps, in their order and each of them once.
-/

namespace Workflow

variable {store : Store} {bindings : Bindings}

namespace Flow

variable {scope : Scope}

theorem fanOut_binds {step : FanOutStep} (consistent : step.out.length = step.count)
    (made : fanOut scope store step = .ok bindings) :
    bindings.names = step.node :: step.out := by
  simp only [fanOut, Outcome.bind_eq_ok, Outcome.pure_eq_ok] at made
  obtain ⟨value, -, values, filled, rfl⟩ := made
  have counted : values.length = step.count :=
    (slots_grounded step value).value values filled
  have enough : step.out.length ≤ values.length := by omega
  have zipped : Bindings.names (step.out.zip values) = step.out := List.map_fst_zip enough
  rw [Bindings.names, List.map_cons]
  exact congrArg (step.node :: ·) zipped

theorem context_binds {step : RouterStep}
    (consistent : step.contextOut.isSome ↔ step.contextProperty.isSome)
    (made : context scope store step = .ok bindings) :
    bindings.names = step.contextOut.toList := by
  unfold context at made
  split at made
  · rename_i property name reads binds
    obtain ⟨content, -, rfl⟩ := Outcome.map_eq_ok.mp made
    rw [binds]
    rfl
  · rename_i notBoth
    obtain rfl := Except.ok.inj made
    cases binds : step.contextOut with
    | none => rfl
    | some name =>
        have reads : step.contextProperty.isSome := by
          apply consistent.mp
          rw [binds]
          rfl
        obtain ⟨property, reads⟩ := Option.isSome_iff_exists.mp reads
        exact absurd binds (notBoth property name reads)

theorem route_binds {step : RouterStep}
    (consistent : step.contextOut.isSome ↔ step.contextProperty.isSome)
    (made : route scope store step = .ok bindings) :
    bindings.names = step.out :: step.contextOut.toList := by
  simp only [route, Outcome.bind_eq_ok] at made
  obtain ⟨value, -, content, -, made⟩ := made
  split at made
  · simp at made
  · simp at made
  · obtain ⟨further, context, made⟩ := Outcome.bind_eq_ok.mp made
    obtain rfl := Outcome.pure_eq_ok.mp made
    rw [Bindings.names, List.map_cons]
    exact congrArg (step.out :: ·) (context_binds consistent context)

end Flow

namespace Run

variable {config : RunConfig} {answer : Request → Reply} {host : Host σ} {pipeline : String}
  {index : Nat} {start after : Progress σ} {step : Step} {steps : List Step}
  {result : Except RunError Unit}

theorem action_binds (consistent : step.Consistent)
    (made : action config index store step = .ok (.bind bindings)) :
    bindings.names = step.outputs := by
  cases step with
  | fanOut s =>
      obtain ⟨_, flow, same⟩ := Outcome.map_eq_ok.mp made
      obtain rfl := Action.bind.inj same
      exact Flow.fanOut_binds consistent flow
  | collect s =>
      obtain ⟨_, flow, same⟩ := Outcome.map_eq_ok.mp made
      obtain rfl := Action.bind.inj same
      exact Flow.collect_names flow
  | router s =>
      obtain ⟨_, flow, same⟩ := Outcome.map_eq_ok.mp made
      obtain rfl := Action.bind.inj same
      exact Flow.route_binds consistent flow
  | generate _ | transform _ | save _ | vision _ | text _ =>
      obtain ⟨_, -, impossible⟩ := Outcome.map_eq_ok.mp made
      cases impossible

theorem outcome_binds (consistent : step.Consistent)
    (made : outcome config answer index store step = .ok bindings) :
    bindings.names = step.outputs := by
  unfold outcome at made
  split at made
  · simp at made
  · rename_i acts
    obtain rfl := Except.ok.inj made
    exact action_binds consistent acts
  · rename_i acts
    exact replyBindings_names (action_ask acts) made

theorem Turn.extends (turn : Turn config host index step start result after) :
    start.store.entries <+: after.store.entries := by
  cases turn with
  | completed made fresh => exact List.prefix_append _ _
  | failed fails => exact List.prefix_rfl
  | clashed made fresh taken => exact List.prefix_append _ _

theorem Turn.binds (turn : Turn config host index step start (.ok ()) after)
    (consistent : step.Consistent) :
    after.store.names = start.store.names ++ step.outputs ∧
      (start.store.names.Nodup → after.store.names.Nodup) := by
  obtain ⟨bindings, made, fresh, store, -, -⟩ := turn.of_ok
  have names : after.store.names = start.store.names ++ bindings.names := by
    rw [store]
    exact start.store.names_extended bindings
  constructor
  · rw [names, outcome_binds consistent made]
  · intro distinct
    rw [names]
    apply List.nodup_append.mpr
    refine ⟨distinct, fresh.distinct, ?_⟩
    intro name bound other binds same
    exact fresh.unbound other binds (same ▸ bound)

/-- Whatever comes of a run, it leaves the bindings that it began with in front. -/
theorem runSteps_extends (config : RunConfig) (host : Host σ) (pipeline : String) (index : Nat)
    (steps : List Step) (start : Progress σ) :
    start.store.entries <+:
      (runSteps config host pipeline index steps start).2.store.entries := by
  induction steps generalizing index start with
  | nil => exact List.prefix_rfl
  | cons step steps induction =>
      have opening := runSteps_opening config host pipeline index step steps start
      generalize (runSteps config host pipeline index (step :: steps) start).1 = result at opening
      generalize (runSteps config host pipeline index (step :: steps) start).2 = last at opening ⊢
      cases opening with
      | cancelled polled => exact List.prefix_rfl
      | stopped polled turn => exact turn.extends
      | @passed state next last result polled passes rest =>
          have onward := induction (index + 1) next
          rw [rest] at onward
          exact (turn_of_runStep passes).extends.trans onward

/-- A successful run binds what its steps declare, after what is bound before. -/
theorem runSteps_binds (index : Nat) (start : Progress σ)
    (consistent : ∀ step ∈ steps, step.Consistent)
    (succeeds : (runSteps config host pipeline index steps start).1 = .ok ()) :
    (runSteps config host pipeline index steps start).2.store.names =
        start.store.names ++ steps.flatMap Step.outputs ∧
      (start.store.names.Nodup →
        (runSteps config host pipeline index steps start).2.store.names.Nodup) := by
  induction steps generalizing index start with
  | nil => simp [runSteps]
  | cons step steps induction =>
      have opening := runSteps_opening config host pipeline index step steps start
      generalize (runSteps config host pipeline index (step :: steps) start).1 = result
        at succeeds opening
      generalize (runSteps config host pipeline index (step :: steps) start).2 = last at opening ⊢
      subst succeeds
      cases opening with
      | @passed state next last _ polled passes rest =>
          obtain ⟨first, fresh⟩ :=
            (turn_of_runStep passes).binds (consistent step List.mem_cons_self)
          have onward := induction (index + 1) next
            (fun later member => consistent later (List.mem_cons_of_mem _ member)) (by rw [rest])
          rw [rest] at onward
          obtain ⟨names, distinct⟩ := onward
          constructor
          · rw [names, first, List.flatMap_cons, List.append_assoc]
          · exact fun before => distinct (fresh before)

end Run

/-- A result of all steps of a pipeline, which binds the initial names and then the
outputs of the steps, none of them twice, and leaves the initial values as they
were. -/
structure RunResult.Complete (pipeline : Pipeline) (initial : KeyMap Value)
    (result : RunResult) : Prop where
  completed : result.completedSteps = pipeline.steps.length
  names : result.store.names = initial.names ++ pipeline.steps.flatMap Step.outputs
  distinct : result.store.names.Nodup
  kept : ∀ name value, initial.get? name = some value → result.value? name = some value

namespace Pipeline

variable (pipeline : Pipeline) (config : RunConfig) (host : Host σ) (initial : KeyMap Value)
  (state : σ)

/-- The stores of a run at the boundaries of its steps: the initial values, what each
further step makes of the store before it, and the store that the run leaves. -/
structure StoreGrows : Prop where
  begins : (pipeline.runFirst config host initial state 0).2.store = .ofInitial initial
  grows : ∀ done, (pipeline.runFirst config host initial state done).2.store.entries <+:
    (pipeline.runFirst config host initial state (done + 1)).2.store.entries
  ends : (pipeline.execute config host initial state).2.store =
    (pipeline.runFirst config host initial state pipeline.steps.length).2.store

theorem runFirst_succ_extends (done : Nat) :
    (pipeline.runFirst config host initial state done).2.store.entries <+:
      (pipeline.runFirst config host initial state (done + 1)).2.store.entries := by
  unfold runFirst
  rw [List.take_add_one, Run.runSteps_append]
  rcases Run.runSteps config host pipeline.name 0 (pipeline.steps.take done)
    (pipeline.start config initial state) with ⟨error | _, middle⟩
  · exact List.prefix_rfl
  · exact Run.runSteps_extends ..

theorem runFirst_mono {first later : Nat} (order : first ≤ later) :
    (pipeline.runFirst config host initial state first).2.store.entries <+:
      (pipeline.runFirst config host initial state later).2.store.entries := by
  induction order with
  | refl => exact List.prefix_rfl
  | step _ induction => exact induction.trans (pipeline.runFirst_succ_extends ..)

theorem storeGrows : pipeline.StoreGrows config host initial state := by
  constructor
  · exact pipeline.start_store config initial state
  · exact pipeline.runFirst_succ_extends config host initial state
  · rw [execute_eq, runFirst, List.take_length]
    rcases Run.runSteps config host pipeline.name 0 pipeline.steps
      (pipeline.start config initial state) with ⟨error | _, last⟩
    · rfl
    · exact Run.store_emit ..

variable {pipeline config host initial state}

theorem complete_of_execute (consistent : ∀ step ∈ pipeline.steps, step.Consistent)
    {result : RunResult}
    (succeeds : (pipeline.execute config host initial state).1 = .ok result) :
    result.Complete pipeline initial := by
  rw [execute_fst] at succeeds
  obtain ⟨_, ran, rfl⟩ := Outcome.map_eq_ok.mp succeeds
  have begun := pipeline.start_store config initial state
  have extended := Run.runSteps_extends config host pipeline.name 0 pipeline.steps
    (pipeline.start config initial state)
  obtain ⟨names, distinct⟩ := Run.runSteps_binds 0 _ consistent ran
  rw [begun] at extended names distinct
  obtain ⟨further, entries⟩ := extended
  constructor
  · rfl
  · exact names
  · exact distinct initial.nodup_names
  · intro name value found
    have first : initial.entries.lookup name = some value := found
    rw [RunResult.value?, Store.get?, result, ← entries]
    simp [Store.ofInitial, List.lookup_append, first]

end Pipeline

/-- A successful run of a compiled pipeline completes all its steps and binds just
what they declare; and every run only adds to its store, step by step. -/
theorem execute_binds_declared {nodes : List Node} {edges : List Edge} {compiled : Compiled}
    (success : compile nodes edges = .ok compiled) (config : RunConfig) (host : Host σ)
    (initial : KeyMap Value) (state : σ) :
    (∀ result, (compiled.pipeline.execute config host initial state).1 = .ok result →
      result.Complete compiled.pipeline initial) ∧
      compiled.pipeline.StoreGrows config host initial state := by
  obtain ⟨-, wiring, order, course⟩ := Compile.named_eq_ok.mp success
  constructor
  · intro result succeeds
    apply Pipeline.complete_of_execute _ succeeds
    intro step member
    obtain ⟨node, -, lowers⟩ := course.exists_lowers member
    exact lowers.consistent
  · exact compiled.pipeline.storeGrows config host initial state

theorem sample_binds_declared :
    ∃ compiled result, compile Graph.sample.nodes Graph.sample.edges = .ok compiled ∧
      (compiled.pipeline.execute {} (Script.host ({} : Script).reply ∅)
        (.single "photo" (.image {})) {}).1 = .ok result ∧
        result.store.names = ["photo", "split", "split_0", "split_1", "caption", "join"] ∧
          result.Complete compiled.pipeline (.single "photo" (.image {})) ∧
            compiled.pipeline.StoreGrows {} (Script.host ({} : Script).reply ∅)
              (.single "photo" (.image {})) {} := by
  let host := Script.host ({} : Script).reply ∅
  obtain ⟨compiled, made⟩ := exists_compiled_sample
  have declares : (compile Graph.sample.nodes Graph.sample.edges).toOption.all fun compiled =>
      decide (compiled.pipeline.steps.flatMap Step.outputs =
        ["split", "split_0", "split_1", "caption", "join"]) := by
    decide +kernel
  have runs : (compile Graph.sample.nodes Graph.sample.edges).toOption.all fun compiled =>
      (compiled.pipeline.execute {} host (.single "photo" (.image {})) {}).1.toOption.isSome := by
    decide +kernel
  rw [made] at declares runs
  have outputs : compiled.pipeline.steps.flatMap Step.outputs =
      ["split", "split_0", "split_1", "caption", "join"] := of_decide_eq_true declares
  obtain ⟨result, succeeds⟩ := Outcome.exists_ok runs
  obtain ⟨complete, grows⟩ := execute_binds_declared made {} host (.single "photo" (.image {})) {}
  have completes := complete result succeeds
  refine ⟨compiled, result, made, succeeds, ?_, completes, grows⟩
  rw [completes.names, outputs]
  rfl

end Workflow
