import Workflow.Proofs.Compilation

/-!
# Single assignment

A compiled pipeline binds every variable once and before it is read.
-/

namespace Workflow

open Compile

/-- A step reads the ids of inputs and what steps before it bind, and no two of
these variables have one name. -/
theorem compile_single_assignment {nodes : List Node} {edges : List Edge} {compiled : Compiled}
    (success : compile nodes edges = .ok compiled) :
    (∀ (k : Nat) (step : Step), compiled.pipeline.steps[k]? = some step → ∀ name ∈ step.inputs,
      (∃ node ∈ nodes, node.kind = .input ∧ node.id = name) ∨
        ∃ (j : Nat) (earlier : Step), j < k ∧ compiled.pipeline.steps[j]? = some earlier ∧
          name ∈ earlier.outputs) ∧
      ((nodes.filter fun node => node.kind = .input).map Node.id ++
        compiled.pipeline.steps.flatMap Step.outputs).Nodup := by
  obtain ⟨-, wiring, order, course⟩ := named_eq_ok.mp success
  constructor
  · intro k step found name member
    obtain ⟨inRange, here⟩ := List.getElem?_eq_some_iff.mp found
    have split : compiled.pipeline.steps =
        compiled.pipeline.steps.take k ++ step :: compiled.pipeline.steps.drop (k + 1) := by
      rw [← here, List.getElem_cons_drop, List.take_append_drop]
    rcases course.bound_before split member with isInput | bound
    · exact Or.inl isInput
    · right
      obtain ⟨earlier, earlierMember, binds⟩ := List.mem_flatMap.mp bound
      obtain ⟨j, before, place⟩ := List.mem_take_iff_getElem.mp earlierMember
      refine ⟨j, earlier, by omega, ?_, binds⟩
      rw [← place]
      exact List.getElem?_eq_getElem _
  · exact course.nodup_bound

theorem sample_single_assignment :
    (∃ compiled, compile Graph.sample.nodes Graph.sample.edges = .ok compiled ∧
      (∀ (k : Nat) (step : Step), compiled.pipeline.steps[k]? = some step → ∀ name ∈ step.inputs,
        (∃ node ∈ Graph.sample.nodes, node.kind = .input ∧ node.id = name) ∨
          ∃ (j : Nat) (earlier : Step), j < k ∧ compiled.pipeline.steps[j]? = some earlier ∧
            name ∈ earlier.outputs) ∧
        ((Graph.sample.nodes.filter fun node => node.kind = .input).map Node.id ++
          compiled.pipeline.steps.flatMap Step.outputs).Nodup) := by
  obtain ⟨compiled, made⟩ := exists_compiled_sample
  exact ⟨compiled, made, compile_single_assignment made⟩

end Workflow
