import Workflow.Proofs.Turn
import Workflow.Run.Script

/-!
# Steps and the rest of the store

A step sees nothing of a store but the variables that it reads.  In stores that agree
on these it makes one and the same request, or none, and comes to the same outcome,
whatever hosts there are that answer the request alike.  Its outcome binds no
variables but those of the step, in their order.
-/

namespace Workflow

namespace Run

variable {config : RunConfig} {answer counterpart : Request → Reply} {index : Nat}
  {store other : Store} {step : Step}

theorem action_eq (config : RunConfig) (index : Nat)
    (agree : Store.Agree step.inputs store other) :
    action config index store step = action config index other step := by
  have alike : Alike (step.scope index) (step.scope index) (Action.Moved index index)
      (action config index store step) (action config index other step) :=
    action_alike config agree
  generalize action config index store step = here at alike ⊢
  generalize action config index other step = there at alike ⊢
  cases alike with
  | ok moved => cases moved <;> rfl
  | error => rfl

theorem requested_eq (config : RunConfig) (index : Nat)
    (agree : Store.Agree step.inputs store other) :
    requested config index store step = requested config index other step := by
  rw [requested, requested, action_eq config index agree]

theorem length_requested_le (config : RunConfig) (index : Nat) (store : Store) (step : Step) :
    (requested config index store step).length ≤ 1 := by
  unfold requested
  split <;> simp

/-- The outcome of a step depends on the answer to its own request alone. -/
theorem outcome_congr (same : ∀ request ∈ requested config index store step,
      answer request = counterpart request) :
    outcome config answer index store step = outcome config counterpart index store step := by
  unfold requested at same
  unfold outcome
  cases acts : action config index store step with
  | error error => rfl
  | ok action =>
      cases action with
      | bind bindings => rfl
      | ask request =>
          have answers : answer request = counterpart request := same request (by simp [acts])
          simp only [answers]

theorem outcome_eq (config : RunConfig) (answer : Request → Reply) (index : Nat)
    (agree : Store.Agree step.inputs store other) :
    outcome config answer index store step = outcome config answer index other step := by
  rw [outcome, outcome, action_eq config index agree]

end Run

/-- A step that is carried out on either of two stores that agree on its inputs makes
the same request, at most one, and changes nothing else.  If the hosts answer that
request alike, then it comes to the same bindings or to the same error.  It binds some
of the step's variables, in their order. -/
theorem perform_confined (config : RunConfig) (host : Host σ) (other : Host τ) (index : Nat)
    (step : Step) {here : Progress σ} {there : Progress τ}
    (agree : Store.Agree step.inputs here.store there.store) :
    ∃ requests : List Request, requests.length ≤ 1 ∧
      (Run.perform config host index step here).2 =
        { here with
          requests := here.requests ++ requests
          host := host.after here.host requests } ∧
      (Run.perform config other index step there).2 =
        { there with
          requests := there.requests ++ requests
          host := other.after there.host requests } ∧
      ((∀ request ∈ requests,
          host.answer here.host request = other.answer there.host request) →
        (Run.perform config host index step here).1 =
          (Run.perform config other index step there).1) ∧
      ∀ bindings, (Run.perform config host index step here).1 = .ok bindings →
        bindings.names.Sublist step.outputs := by
  have same := Run.requested_eq config index agree
  refine ⟨Run.requested config index here.store step, Run.length_requested_le .., ?_, ?_, ?_, ?_⟩
  · rw [Run.perform_eq]
    rfl
  · rw [Run.perform_eq, same]
    rfl
  · intro answers
    rw [Run.perform_eq, Run.perform_eq]
    calc Run.outcome config (host.answer here.host) index here.store step
        = Run.outcome config (other.answer there.host) index here.store step :=
          Run.outcome_congr answers
      _ = Run.outcome config (other.answer there.host) index there.store step :=
          Run.outcome_eq config _ index agree
  · intro bindings made
    rw [Run.perform_eq] at made
    exact Run.outcome_names made

/-- A step that describes a photo as a question and some notes want it. -/
def Step.caption : Step :=
  .vision {
    provider := "describe"
    input := "photo"
    context := some "notes"
    params := ∅
    deferred := { prompt := some { name := "question" } }
    out := "caption" }

/-- A run that has all that the caption is made from. -/
def Progress.album : Progress Token where
  store := ⟨[("photo", .image {}), ("notes", .data "at dusk"), ("question", .data "Who is it?")]⟩
  host := {}

/-- A run that has the same in another order, and a secret. -/
def Progress.diary : Progress Token where
  store := ⟨[("question", .data "Who is it?"), ("secret", .data "it was me"),
    ("notes", .data "at dusk"), ("photo", .image {})]⟩
  host := {}

theorem caption_confined :
    ∃ request bindings,
      Run.perform {} (Script.host (Script.reply {}) ∅) 0 Step.caption Progress.album =
        (.ok bindings, { Progress.album with requests := [request] }) ∧
      Run.perform {} (Script.host (Script.reply {}) ∅) 0 Step.caption Progress.diary =
        (.ok bindings, { Progress.diary with requests := [request] }) := by
  have agree : Store.Agree Step.caption.inputs Progress.album.store Progress.diary.store := by
    unfold Store.Agree
    decide
  obtain ⟨requests, -, album, diary, outcomes, -⟩ := perform_confined {}
    (Script.host (Script.reply {}) ∅) (Script.host (Script.reply {}) ∅) 0 Step.caption agree
  obtain ⟨bindings, made⟩ : ∃ bindings, (Run.perform {} (Script.host (Script.reply {}) ∅) 0
      Step.caption Progress.album).1 = .ok bindings := Outcome.exists_ok (by decide)
  have asked : (Run.perform {} (Script.host (Script.reply {}) ∅) 0 Step.caption
      Progress.album).2.requests.length = 1 := by
    decide
  rw [album] at asked
  obtain ⟨request, rfl⟩ := List.length_eq_one_iff.mp asked
  exact ⟨request, bindings, Prod.ext made album,
    Prod.ext ((outcomes fun _ _ => rfl).symm.trans made) diary⟩

end Workflow
