import Workflow.Proofs.Binding
import Workflow.Proofs.Compilation
import Workflow.Proofs.Lookup

/-!
# Compiled pipelines do not dangle

A run keeps one invariant: the store binds the initial names and then the
outputs of the steps that are done.  So each step of a compiled pipeline finds
its inputs bound and its outputs unbound, whatever the host answers and whenever
it cancels.
-/

namespace Workflow

theorem Node.Lowers.consistent {node : Node} {arriving : List Wire} {step : Step}
    (lowers : node.Lowers arriving step) : step.Consistent := by
  cases lowers with
  | fanOut => simp [Step.Consistent]
  | router => simp [Step.Consistent]
  | generate | transform | save | vision | text | collect => exact trivial

namespace Run

/-- Steps that read only what is bound before them, and bind only what is not,
bind all their outputs, unless the run comes to an error that does not dangle. -/
theorem runSteps_grounded (config : RunConfig) (host : Host σ) (pipeline : String) (index : Nat)
    (progress : Progress σ) {steps : List Step} (consistent : ∀ step ∈ steps, step.Consistent)
    (reads : ∀ before step after, steps = before ++ step :: after →
      step.inputs ⊆ progress.store.names ++ before.flatMap Step.outputs)
    (distinct : (progress.store.names ++ steps.flatMap Step.outputs).Nodup) :
    Grounded (runSteps config host pipeline index steps progress).1 fun _ =>
      (runSteps config host pipeline index steps progress).2.store.names =
        progress.store.names ++ steps.flatMap Step.outputs := by
  induction steps generalizing index progress with
  | nil => simp [runSteps]
  | cons step steps induction =>
      unfold runSteps
      rcases host.poll progress.host with ⟨_ | reason, state⟩
      · have bound : step.inputs ⊆ progress.store.names := by
          simpa using reads [] step steps rfl
        rw [List.flatMap_cons, ← List.append_assoc] at distinct ⊢
        have first := runStep_grounded config host index { progress with host := state }
          (consistent step List.mem_cons_self) bound (List.nodup_append.mp distinct).1
        simp only
        rcases runs : runStep config host index step { progress with host := state } with
          ⟨result, next⟩
        rw [runs] at first
        cases result with
        | error refusal => simpa using first
        | ok =>
            have names : next.store.names = progress.store.names ++ step.outputs :=
              first.value _ rfl
            rw [← names] at distinct ⊢
            refine induction (index + 1) next ?_ ?_ distinct
            · exact fun later member => consistent later (List.mem_cons_of_mem _ member)
            · intro before later after split
              have inputs := reads (step :: before) later after (by rw [split]; rfl)
              rw [names, List.append_assoc]
              exact inputs
      · simp [RunError.Dangling]

end Run

theorem Pipeline.runSteps_of_execute {pipeline : Pipeline} {config : RunConfig} {host : Host σ}
    {initial : KeyMap Value} {state : σ} {error : RunError}
    (failed : (pipeline.execute config host initial state).1 = .error error) :
    ∃ progress, progress.store = .ofInitial initial ∧
      (Run.runSteps config host pipeline.name 0 pipeline.steps progress).1 = .error error := by
  refine ⟨Run.emit config (.started pipeline.name pipeline.steps.length)
    { store := .ofInitial initial, host := state }, Run.store_emit .., ?_⟩
  unfold Pipeline.execute at failed
  simp only at failed
  split at failed
  · rename_i runs
    rw [runs]
    simpa using failed
  · simp at failed

/-- Whatever the host answers and whenever it cancels, running a compiled
pipeline never comes to an error about a variable that is bound never or
twice. -/
theorem execute_never_dangles {nodes : List Node} {edges : List Edge} {compiled : Compiled}
    (success : compile nodes edges = .ok compiled) {initial : KeyMap Value}
    (supplied : ∀ node ∈ nodes, node.kind = .input → initial.contains node.id)
    (fresh : ∀ step ∈ compiled.pipeline.steps, ∀ name ∈ step.outputs, ¬initial.contains name)
    (config : RunConfig) (host : Host σ) (state : σ) {error : RunError}
    (failed : (compiled.pipeline.execute config host initial state).1 = .error error) :
    ¬error.Dangling := by
  obtain ⟨-, wiring, order, course⟩ := Compile.named_eq_ok.mp success
  have initially : ∀ {name : String}, initial.contains name ↔ name ∈ initial.names := by
    intro name
    rw [← Store.contains_ofInitial, Store.contains_iff_mem, Store.names_ofInitial]
  have consistent : ∀ step ∈ compiled.pipeline.steps, step.Consistent := by
    intro step member
    obtain ⟨before, after, split⟩ := List.append_of_mem member
    obtain ⟨_, _, _, _, _, lowers⟩ := course.node_of_step split
    exact lowers.consistent
  have reads : ∀ before step after, compiled.pipeline.steps = before ++ step :: after →
      step.inputs ⊆ initial.names ++ before.flatMap Step.outputs := by
    intro before step after split name member
    rcases course.bound_before split member with ⟨node, nodeMember, isInput, rfl⟩ | earlier
    · exact List.mem_append_left _ (initially.mp (supplied node nodeMember isInput))
    · exact List.mem_append_right _ earlier
  have distinct : (initial.names ++ compiled.pipeline.steps.flatMap Step.outputs).Nodup := by
    refine List.nodup_append.mpr
      ⟨initial.nodup_names, (List.nodup_append.mp course.nodup_bound).2.1, ?_⟩
    rintro name initialName _ member rfl
    obtain ⟨step, stepMember, binds⟩ := List.mem_flatMap.mp member
    exact fresh step stepMember name binds (initially.mpr initialName)
  obtain ⟨progress, store, stepsFailed⟩ := Pipeline.runSteps_of_execute failed
  have names : progress.store.names = initial.names := by
    rw [store, Store.names_ofInitial]
  rw [← names] at reads distinct
  exact (Run.runSteps_grounded config host compiled.pipeline.name 0 progress consistent reads
    distinct).error error stepsFailed

/-- A host that answers nothing and never cancels. -/
def Host.silent : Host Unit where
  serve state _ := (.ok .empty, state)
  poll state := (none, state)

theorem sample_never_dangles :
    ∃ compiled error, compile Graph.sample.nodes Graph.sample.edges = .ok compiled ∧
      (compiled.pipeline.execute {} Host.silent (.single "photo" (.image {})) ()).1 =
          .error error ∧
        ¬error.Dangling := by
  obtain ⟨compiled, made⟩ := exists_compiled_sample
  have fresh : (compile Graph.sample.nodes Graph.sample.edges).toOption.all fun compiled =>
      decide (∀ step ∈ compiled.pipeline.steps, ∀ name ∈ step.outputs,
        ¬(KeyMap.single "photo" (Value.image {})).contains name) := by
    decide +kernel
  have fails : (compile Graph.sample.nodes Graph.sample.edges).toOption.all fun compiled =>
      (compiled.pipeline.execute {} Host.silent (.single "photo" (.image {}))
        ()).1.toOption.isNone := by
    decide +kernel
  simp only [made, Except.toOption, Option.all_some, decide_eq_true_eq] at fresh fails
  cases failed : (compiled.pipeline.execute {} Host.silent (.single "photo" (.image {})) ()).1 with
  | ok result => simp [failed] at fails
  | error error =>
      exact ⟨compiled, error, made, failed,
        execute_never_dangles made (by decide) fresh {} Host.silent () failed⟩

end Workflow
