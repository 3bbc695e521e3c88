import Workflow.Proofs.Execution
import Workflow.Proofs.Lookup
import Workflow.Proofs.Turn
import Workflow.Run.Script

/-!
# Runs in another order

A successful run ends with a store on which every step has the outcome that it
had when it was run, since nothing that a step reads is bound after it.  Such a
store does not depend on the order of the steps, and the steps in any order that
respects what they read come to it.
-/

namespace Workflow

namespace Artifact

/-- The artifact without the index of its step. -/
def unplaced (artifact : Artifact) : Artifact :=
  { artifact with stepIndex := 0 }

mutual

theorem ofValue_unplaced (index : Nat) (node name : String) (value : Value) :
    (ofValue index node name value).map unplaced = ofValue 0 node name value := by
  cases value with
  | image image => rfl
  | data text => rfl
  | list items => exact ofItems_unplaced index node name items

theorem ofItems_unplaced (index : Nat) (node name : String) (items : List Value) :
    (ofItems index node name items).map unplaced = ofItems 0 node name items := by
  cases items with
  | nil => rfl
  | cons item items =>
      rw [ofItems, ofItems, List.map_append, ofValue_unplaced, ofItems_unplaced]

end

end Artifact

theorem Step.recorded_unplaced (step : Step) (index : Nat) (bindings : Bindings) :
    (step.recorded index bindings).map Artifact.unplaced = step.recorded 0 bindings := by
  unfold recorded
  split
  · simp [List.map_flatMap, Artifact.ofValue_unplaced]
  · rfl

/-- Each step comes after the steps that bind what it reads. -/
def Step.InOrder (steps : List Step) : Prop :=
  ∀ i j : Fin steps.length, ∀ name ∈ steps[i].inputs, name ∈ steps[j].outputs → j < i

instance (steps : List Step) : Decidable (Step.InOrder steps) :=
  inferInstanceAs (Decidable (∀ i j : Fin steps.length, ∀ name ∈ steps[i].inputs,
    name ∈ steps[j].outputs → j < i))

namespace Step.InOrder

variable {step : Step} {steps : List Step}

theorem head (ordered : Step.InOrder (step :: steps)) :
    step.inputs.Disjoint ((step :: steps).flatMap Step.outputs) := by
  intro name reads binds
  obtain ⟨source, member, binds⟩ := List.mem_flatMap.mp binds
  obtain ⟨place, inRange, rfl⟩ := List.getElem_of_mem member
  have earlier := ordered ⟨0, by simp⟩ ⟨place, inRange⟩ name reads binds
  exact absurd earlier (Nat.not_lt_zero place)

theorem tail (ordered : Step.InOrder (step :: steps)) : Step.InOrder steps := by
  intro i j name reads binds
  exact Fin.succ_lt_succ_iff.mp (ordered i.succ j.succ name reads binds)

end Step.InOrder

theorem Compile.Course.inOrder {nodes : List Node} {edges : List Edge} {wiring : Wiring}
    {order : List Node} {compiled : Compiled}
    (course : Course nodes edges wiring order compiled) :
    Step.InOrder compiled.pipeline.steps := by
  intro i j name reads binds
  have distinct := course.nodup_bound
  rw [← List.take_append_drop i compiled.pipeline.steps, List.flatMap_append,
    List.nodup_append, List.nodup_append] at distinct
  obtain ⟨-, ⟨-, -, notBoth⟩, notInput⟩ := distinct
  have split : compiled.pipeline.steps =
      compiled.pipeline.steps.take i ++ compiled.pipeline.steps[i] ::
        compiled.pipeline.steps.drop (i + 1) := by
    rw [Fin.getElem_fin, List.getElem_cons_drop, List.take_append_drop]
  apply Fin.not_le.mp
  intro notBefore
  have within : compiled.pipeline.steps[j] ∈ compiled.pipeline.steps.drop i := by
    rw [List.mem_drop_iff_getElem]
    exact ⟨j - i, by omega, by simp [Nat.add_sub_cancel' (Fin.le_def.mp notBefore)]⟩
  have bound : name ∈ (compiled.pipeline.steps.drop i).flatMap Step.outputs :=
    List.mem_flatMap.mpr ⟨_, within, binds⟩
  rcases course.bound_before split reads with ⟨node, member, isInput, rfl⟩ | earlier
  · have input : node.id ∈ (nodes.filter fun node => node.kind = .input).map Node.id :=
      List.mem_map_of_mem (List.mem_filter.mpr ⟨member, by simpa using isInput⟩)
    exact notInput _ input _ (List.mem_append_right _ bound) rfl
  · exact notBoth name earlier name bound rfl

theorem Compile.Course.nodup_initial {nodes : List Node} {edges : List Edge} {wiring : Wiring}
    {order : List Node} {compiled : Compiled}
    (course : Course nodes edges wiring order compiled) {initial : KeyMap Value}
    (fresh : ∀ step ∈ compiled.pipeline.steps, ∀ name ∈ step.outputs, ¬initial.contains name) :
    (initial.names ++ compiled.pipeline.steps.flatMap Step.outputs).Nodup := by
  refine List.nodup_append.mpr
    ⟨initial.nodup_names, (List.nodup_append.mp course.nodup_bound).2.1, ?_⟩
  intro name isInitial other bound same
  obtain ⟨step, member, binds⟩ := List.mem_flatMap.mp bound
  apply fresh step member other binds
  rw [← Store.contains_ofInitial, Store.contains_iff_mem, Store.names_ofInitial, ← same]
  exact isInitial

/-- The result of a run that was not cancelled. -/
def Uncancelled (result : Except RunError α) : Prop :=
  ∀ reason completed, result ≠ .error (.cancelled reason completed)

namespace Run

variable {config : RunConfig} {answer : Request → Reply} {host : Host σ}
  {start final : Store} {step : Step} {steps : List Step} {index : Nat}

/-- What a step binds on a store; nothing, if it fails. -/
def made (config : RunConfig) (answer : Request → Reply) (store : Store) (step : Step) :
    Bindings :=
  match outcome config answer 0 store step with
  | .ok bindings => bindings
  | .error _ => []

/-- A store binds what another one does, and then just what steps bind on it. -/
structure Solves (config : RunConfig) (answer : Request → Reply) (start : Store)
    (steps : List Step) (final : Store) : Prop where
  succeeds : ∀ step ∈ steps, ∃ bindings, outcome config answer 0 final step = .ok bindings
  entries : final.entries = start.entries ++ steps.flatMap (made config answer final)

theorem made_names (config : RunConfig) (answer : Request → Reply) (store : Store)
    (step : Step) : (made config answer store step).names.Sublist step.outputs := by
  unfold made
  split
  · rename_i outcome
    exact outcome_names outcome
  · exact List.nil_sublist _

theorem flatMap_made_names (config : RunConfig) (answer : Request → Reply) (store : Store)
    (steps : List Step) :
    (Bindings.names (steps.flatMap (made config answer store))).Sublist
      (steps.flatMap Step.outputs) := by
  induction steps with
  | nil => exact List.Sublist.refl _
  | cons step steps induction =>
      rw [List.flatMap_cons, List.flatMap_cons, Bindings.names, List.map_append]
      exact (made_names config answer store step).append induction

/-- A step finds the same after bindings of names that it does not read. -/
theorem agree_of_disjoint {names : List String} {bindings : Bindings}
    (entries : final.entries = start.entries ++ bindings)
    (disjoint : step.inputs.Disjoint names) (within : bindings.names ⊆ names) :
    Store.Agree step.inputs start final := by
  intro name reads
  have absent : name ∉ bindings.map Prod.fst := by
    intro bound
    exact disjoint reads (within bound)
  rw [Store.get?, Store.get?, entries, lookup_append_of_notMem absent]

/-- Where answers do not depend on the index of a step, its outcome does not
either, nor on what the step does not read. -/
theorem outcome_eq_ok {other : Store} {state : σ} {bindings : Bindings}
    (answers : ∀ state request, host.answer state request =
      answer { request with stepIndex := 0 })
    (agree : Store.Agree step.inputs start other) :
    outcome config (host.answer state) index start step = .ok bindings ↔
      outcome config answer 0 other step = .ok bindings := by
  have alike : Alike (step.scope index) (step.scope 0) Eq
      (outcome config (host.answer state) index start step)
      (outcome config answer 0 other step) :=
    outcome_alike config agree fun request => answers state { request with stepIndex := index }
  exact alike.eq_ok_iff

theorem made_of_outcome {bindings : Bindings}
    (outcome : outcome config answer 0 final step = .ok bindings) :
    made config answer final step = bindings := by
  simp [made, outcome]

/-- A run that succeeds leaves a store behind that solves its steps. -/
theorem solves_of_runSteps (pipeline : String) (index : Nat) (progress : Progress σ)
    (answers : ∀ state request, host.answer state request =
      answer { request with stepIndex := 0 })
    (ordered : Step.InOrder steps)
    (ran : (runSteps config host pipeline index steps progress).1 = .ok ()) :
    Solves config answer progress.store steps
        (runSteps config host pipeline index steps progress).2.store ∧
      (runSteps config host pipeline index steps progress).2.artifacts.map Artifact.unplaced =
        progress.artifacts.map Artifact.unplaced ++ steps.flatMap fun step => step.recorded 0
          (made config answer (runSteps config host pipeline index steps progress).2.store
            step) := by
  induction steps generalizing index progress with
  | nil => exact ⟨⟨by simp, by simp [runSteps]⟩, by simp [runSteps]⟩
  | cons step steps induction =>
      have opening := runSteps_opening config host pipeline index step steps progress
      generalize (runSteps config host pipeline index (step :: steps) progress).1 = result
        at ran opening
      generalize (runSteps config host pipeline index (step :: steps) progress).2 = last
        at opening ⊢
      subst ran
      cases opening with
      | @passed state next last _ polled passes rest =>
          obtain ⟨bindings, outcome, -, store, artifacts, -⟩ := (turn_of_runStep passes).of_ok
          have ends := induction (index + 1) next ordered.tail (by rw [rest])
          rw [rest] at ends
          obtain ⟨solves, recorded⟩ := ends
          have entries : last.store.entries = progress.store.entries ++
              (bindings ++ steps.flatMap (made config answer last.store)) := by
            rw [solves.entries, store, List.append_assoc]
          have names : Bindings.names (bindings ++ steps.flatMap (made config answer last.store)) ⊆
              (step :: steps).flatMap Step.outputs := by
            rw [Bindings.names, List.map_append, List.flatMap_cons]
            exact ((outcome_names outcome).append (flatMap_made_names ..)).subset
          have agree := agree_of_disjoint entries ordered.head names
          have here := (outcome_eq_ok answers agree).mp outcome
          have first := made_of_outcome here
          constructor
          · constructor
            · intro other member
              rcases List.mem_cons.mp member with rfl | later
              · exact ⟨bindings, here⟩
              · exact solves.succeeds other later
            · rw [entries, List.flatMap_cons, first]
          · rw [recorded, artifacts, List.map_append, step.recorded_unplaced, List.flatMap_cons,
              first, List.append_assoc]

/-- Steps that a store solves succeed and come to that store, unless the run is
cancelled. -/
theorem runSteps_of_solves (pipeline : String) (index : Nat) (progress : Progress σ)
    (answers : ∀ state request, host.answer state request =
      answer { request with stepIndex := 0 })
    (ordered : Step.InOrder steps) (solves : Solves config answer progress.store steps final)
    (distinct : final.names.Nodup)
    (uncancelled : Uncancelled (runSteps config host pipeline index steps progress).1) :
    (runSteps config host pipeline index steps progress).1 = .ok () ∧
      (runSteps config host pipeline index steps progress).2.store = final := by
  induction steps generalizing index progress with
  | nil =>
      have entries : final.entries = progress.store.entries := by
        simpa using solves.entries
      exact ⟨rfl, congrArg Store.mk entries.symm⟩
  | cons step steps induction =>
      obtain ⟨bindings, here⟩ := solves.succeeds step List.mem_cons_self
      have entries : final.entries = progress.store.entries ++
          (bindings ++ steps.flatMap (made config answer final)) := by
        rw [solves.entries, List.flatMap_cons, made_of_outcome here]
      have names : Bindings.names (bindings ++ steps.flatMap (made config answer final)) ⊆
          (step :: steps).flatMap Step.outputs := by
        rw [← made_of_outcome here]
        exact (flatMap_made_names config answer final (step :: steps)).subset
      have agree := agree_of_disjoint entries ordered.head names
      have before : ∀ state, outcome config (host.answer state) index progress.store step =
          .ok bindings := fun state => (outcome_eq_ok answers agree).mpr here
      have opening := runSteps_opening config host pipeline index step steps progress
      generalize (runSteps config host pipeline index (step :: steps) progress).1 = result
        at uncancelled opening ⊢
      generalize (runSteps config host pipeline index (step :: steps) progress).2 = last
        at opening ⊢
      cases opening with
      | cancelled => exact absurd rfl (uncancelled _ _)
      | stopped polled turn =>
          exfalso
          cases turn with
          | failed fails => simp [before] at fails
          | @clashed front back name value succeeds _ bound =>
              obtain rfl : bindings = front ++ (name, value) :: back := by
                simpa [before] using succeeds
              have listed : final.names = (progress.store.names ++ front.names) ++
                  name :: Bindings.names (back ++ steps.flatMap (made config answer final)) := by
                simp [Store.names, Bindings.names, entries]
              rw [listed, List.nodup_append] at distinct
              exact distinct.2.2 name bound name List.mem_cons_self rfl
      | @passed state next last result polled passes rest =>
          obtain ⟨found, succeeds, -, store, -, -⟩ := (turn_of_runStep passes).of_ok
          obtain rfl : bindings = found := by simpa [before] using succeeds
          have later : Solves config answer next.store steps final := by
            constructor
            · exact fun other member => solves.succeeds other (List.mem_cons_of_mem _ member)
            · rw [entries, store, List.append_assoc]
          have ends := induction (index + 1) next ordered.tail later
          rw [rest] at ends
          exact ends uncancelled

theorem Solves.nodup_names (solves : Solves config answer start steps final)
    (distinct : (start.names ++ steps.flatMap Step.outputs).Nodup) : final.names.Nodup := by
  have names : final.names =
      start.names ++ Bindings.names (steps.flatMap (made config answer final)) := by
    rw [Store.names, solves.entries, List.map_append]
    rfl
  rw [names]
  exact distinct.sublist ((flatMap_made_names config answer final steps).append_left _)

/-- A store that solves steps, with its bindings in the order of other steps. -/
theorem Solves.reordered {other : List Step} (solves : Solves config answer start steps final)
    (permutation : other.Perm steps) (distinct : final.names.Nodup) :
    ∃ store : Store, Solves config answer start other store ∧
      store.entries.Perm final.entries ∧ made config answer store = made config answer final := by
  let store : Store := ⟨start.entries ++ other.flatMap (made config answer final)⟩
  have entries : store.entries.Perm final.entries := by
    rw [solves.entries]
    exact (permutation.flatMap_right _).append_left _
  have outcomes : ∀ step, outcome config answer 0 store step =
      outcome config answer 0 final step := by
    intro step
    have agree : Store.Agree step.inputs store final := by
      intro name _
      exact (lookup_perm entries.symm distinct name).symm
    have alike : Alike (step.scope 0) (step.scope 0) Eq (outcome config answer 0 store step)
        (outcome config answer 0 final step) := outcome_alike config agree fun _ => rfl
    exact alike.eq
  have same : made config answer store = made config answer final := by
    funext step
    simp only [made, outcomes]
  refine ⟨store, ⟨?_, ?_⟩, entries, same⟩
  · intro step member
    rw [outcomes]
    exact solves.succeeds step (permutation.mem_iff.mp member)
  · rw [same]

end Run

def Pipeline.withSteps (pipeline : Pipeline) (steps : List Step) : Pipeline :=
  { pipeline with steps }

/-- Two results bind the same values and record the same artifacts, each in an
order of its own. -/
structure RunResult.Rearranged (result other : RunResult) : Prop where
  values : ∀ name, result.value? name = other.value? name
  bindings : result.store.entries.Perm other.store.entries
  artifacts : (result.artifacts.map Artifact.unplaced).Perm (other.artifacts.map Artifact.unplaced)

namespace Pipeline

variable {pipeline other : Pipeline} {config : RunConfig} {host : Host σ}
  {answer : Request → Reply} {initial : KeyMap Value} {state : σ}

/-- What steps come to in one order, they come to in any other. -/
theorem exists_rearranged
    (answers : ∀ state request, host.answer state request =
      answer { request with stepIndex := 0 })
    (permutation : other.steps.Perm pipeline.steps) (ordered : Step.InOrder pipeline.steps)
    (otherOrdered : Step.InOrder other.steps)
    (distinct : (initial.names ++ pipeline.steps.flatMap Step.outputs).Nodup)
    {result : RunResult}
    (succeeds : (pipeline.execute config host initial state).1 = .ok result)
    (uncancelled : Uncancelled (other.execute config host initial state).1) :
    ∃ again, (other.execute config host initial state).1 = .ok again ∧ result.Rearranged again := by
  rw [execute_fst] at succeeds uncancelled ⊢
  simp only at succeeds uncancelled ⊢
  obtain ⟨_, ran, rfl⟩ := Outcome.map_eq_ok.mp succeeds
  obtain ⟨solves, artifacts⟩ := Run.solves_of_runSteps pipeline.name 0 _ answers ordered ran
  rw [start_store] at solves
  rw [start_artifacts] at artifacts
  have finalDistinct := solves.nodup_names distinct
  obtain ⟨store, resolves, entries, same⟩ := solves.reordered permutation finalDistinct
  have storeDistinct : store.names.Nodup := (entries.map Prod.fst).nodup_iff.mpr finalDistinct
  rw [← start_store other config initial state] at resolves
  obtain ⟨reran, final⟩ := Run.runSteps_of_solves other.name 0 _ answers otherOrdered resolves
    storeDistinct fun reason completed cancels =>
      uncancelled reason completed (by rw [cancels]; rfl)
  obtain ⟨-, again⟩ := Run.solves_of_runSteps other.name 0 _ answers otherOrdered reran
  rw [start_artifacts, final, same] at again
  refine ⟨_, Outcome.map_eq_ok.mpr ⟨(), reran, rfl⟩, ?_, ?_, ?_⟩
  · intro name
    simp only [RunResult.value?, result, final]
    exact lookup_perm entries.symm finalDistinct name
  · simp only [result, final]
    exact entries.symm
  · simp only [result, artifacts, again, List.map_nil, List.nil_append]
    exact permutation.symm.flatMap_right _

end Pipeline

/-- A compiled pipeline and its steps in any order that respects what they read
succeed alike and with the same result, whatever the providers answer, if an
answer does not depend on the index of a step and neither run is cancelled. -/
theorem execute_reordered {nodes : List Node} {edges : List Edge} {compiled : Compiled}
    (success : compile nodes edges = .ok compiled) {reordered : List Step}
    (permutation : reordered.Perm compiled.pipeline.steps) (ordered : Step.InOrder reordered)
    {initial : KeyMap Value}
    (fresh : ∀ step ∈ compiled.pipeline.steps, ∀ name ∈ step.outputs, ¬initial.contains name)
    (config : RunConfig) (host : Host σ) (answer : Request → Reply)
    (answers : ∀ state request, host.answer state request =
      answer { request with stepIndex := 0 })
    (state : σ)
    (uncancelled : Uncancelled (compiled.pipeline.execute config host initial state).1)
    (reorderedUncancelled :
      Uncancelled ((compiled.pipeline.withSteps reordered).execute config host initial state).1) :
    ((∃ result, (compiled.pipeline.execute config host initial state).1 = .ok result) ↔
        ∃ result, ((compiled.pipeline.withSteps reordered).execute config host initial state).1 =
          .ok result) ∧
      ∀ result other, (compiled.pipeline.execute config host initial state).1 = .ok result →
        ((compiled.pipeline.withSteps reordered).execute config host initial state).1 =
          .ok other → result.Rearranged other := by
  obtain ⟨-, wiring, order, course⟩ := Compile.named_eq_ok.mp success
  have distinct := course.nodup_initial fresh
  have moved : (initial.names ++ reordered.flatMap Step.outputs).Nodup :=
    ((permutation.flatMap_right _).append_left _).nodup_iff.mpr distinct
  have there : ∀ result, (compiled.pipeline.execute config host initial state).1 = .ok result →
      ∃ other, ((compiled.pipeline.withSteps reordered).execute config host initial state).1 =
        .ok other ∧ result.Rearranged other := by
    intro result succeeds
    exact Pipeline.exists_rearranged answers permutation course.inOrder ordered distinct succeeds
      reorderedUncancelled
  constructor
  · constructor
    · intro succeeds
      obtain ⟨result, succeeds⟩ := succeeds
      obtain ⟨other, again, -⟩ := there result succeeds
      exact ⟨other, again⟩
    · intro succeeds
      obtain ⟨other, succeeds⟩ := succeeds
      obtain ⟨result, back, -⟩ := Pipeline.exists_rearranged answers permutation.symm ordered
        course.inOrder moved succeeds uncancelled
      exact ⟨result, back⟩
  · intro result other succeeds otherSucceeds
    obtain ⟨again, same, rearranged⟩ := there result succeeds
    obtain rfl : again = other := by simpa [same] using otherSucceeds
    exact rearranged

/-- The third step of four first. -/
def Step.thirdFirst (steps : List Step) : List Step :=
  (steps.drop 2).take 1 ++ steps.take 2 ++ steps.drop 3

theorem landscape_reordered :
    ∃ compiled reordered result other,
      compile Graph.landscape.nodes Graph.landscape.edges = .ok compiled ∧
        reordered ≠ compiled.pipeline.steps ∧ reordered.Perm compiled.pipeline.steps ∧
          (compiled.pipeline.execute {} (Script.host ({} : Script).reply ∅) ∅ {}).1 =
              .ok result ∧
            ((compiled.pipeline.withSteps reordered).execute {}
              (Script.host ({} : Script).reply ∅) ∅ {}).1 = .ok other ∧
              result.Rearranged other := by
  let host := Script.host ({} : Script).reply ∅
  have compiles : (compile Graph.landscape.nodes Graph.landscape.edges).toOption.isSome := by
    decide +kernel
  have orders : (compile Graph.landscape.nodes Graph.landscape.edges).toOption.all fun compiled =>
      decide (Step.thirdFirst compiled.pipeline.steps ≠ compiled.pipeline.steps ∧
        (Step.thirdFirst compiled.pipeline.steps).Perm compiled.pipeline.steps ∧
          Step.InOrder (Step.thirdFirst compiled.pipeline.steps)) := by
    decide +kernel
  have runs : (compile Graph.landscape.nodes Graph.landscape.edges).toOption.all fun compiled =>
      decide ((compiled.pipeline.execute {} host ∅ {}).1.toOption.isSome ∧
        ((compiled.pipeline.withSteps (Step.thirdFirst compiled.pipeline.steps)).execute {}
          host ∅ {}).1.toOption.isSome) := by
    decide +kernel
  obtain ⟨compiled, made⟩ := Outcome.exists_ok compiles
  rw [made] at orders runs
  obtain ⟨different, permutation, ordered⟩ := of_decide_eq_true orders
  obtain ⟨ran, reran⟩ := of_decide_eq_true runs
  obtain ⟨result, succeeds⟩ := Outcome.exists_ok ran
  obtain ⟨other, again⟩ := Outcome.exists_ok reran
  have fresh : ∀ step ∈ compiled.pipeline.steps, ∀ name ∈ step.outputs,
      ¬KeyMap.contains (∅ : KeyMap Value) name := fun _ _ _ _ => Bool.false_ne_true
  have same := execute_reordered made permutation ordered fresh {} host ({} : Script).reply
    (fun _ _ => rfl) {} (by simp [Uncancelled, succeeds]) (by simp [Uncancelled, again])
  exact ⟨compiled, _, result, other, made, different, permutation, succeeds, again,
    same.2 result other succeeds again⟩

end Workflow
