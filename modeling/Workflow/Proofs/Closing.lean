import Workflow.Proofs.Trace
import Workflow.Run.Script

/-!
# Steps that begin and end

A reporting run closes each step that it has begun and blames an error on the
step that it began last, unless the run is cancelled or a name is bound twice.
Such a conflict is found while a step makes its bindings; it is reported as the
end of the run but not of the step, and it tells of no step.
-/

namespace Workflow

namespace Event

/-- The step whose beginning an event reports. -/
def opens? : Event → Option Scope
  | stepStarted index node kind => some { index, node, kind }
  | _ => none

/-- The step whose end an event reports. -/
def closes? : Event → Option Scope
  | stepCompleted index node kind _ | stepFailed index node kind _ _ =>
      some { index, node, kind }
  | _ => none

end Event

/-- Of the events after the beginning of a step, exactly one closes a step with
its index, and it names the same node and kind. -/
def Closed (events : List Event) : Prop :=
  ∀ event after scope, event :: after <:+ events → event.opens? = some scope →
    (after.filterMap Event.closes?).filter (fun closed => closed.index = scope.index) = [scope]

/-- An error is a cancellation, or it belongs to the step that was begun last. -/
def Blamed (result : Except RunError α) (events : List Event) : Prop :=
  ∀ error, result = .error error →
    (∃ reason completed, error = .cancelled reason completed) ∨
      ∃ scope, (events.filterMap Event.opens?).getLast? = some scope ∧
        error.stepIndex? = some scope.index ∧ error.node? = some scope.node

/-- No name is bound twice in a run. -/
def Unconflicted (result : Except RunError α) : Prop :=
  ∀ name, result ≠ .error (.variableConflict name)

theorem closed_cons {event : Event} {events : List Event} :
    Closed (event :: events) ↔
      (∀ scope, event.opens? = some scope →
        (events.filterMap Event.closes?).filter (fun closed => closed.index = scope.index) =
          [scope]) ∧ Closed events := by
  constructor
  · intro closed
    constructor
    · intro scope opens
      exact closed event events scope (List.suffix_refl _) opens
    · intro other after scope within opens
      exact closed other after scope (within.trans (List.suffix_cons _ _)) opens
  · intro parts other after scope within opens
    obtain ⟨first, rest⟩ := parts
    rcases List.suffix_cons_iff.mp within with same | later
    · obtain ⟨rfl, rfl⟩ := List.cons.inj same
      exact first scope opens
    · exact rest other after scope later opens

theorem closed_nil : Closed [] := by
  intro event after scope within
  simp at within

/-- The events close steps from an index on only. -/
def ClosesFrom (index : Nat) (events : List Event) : Prop :=
  ∀ scope ∈ events.filterMap Event.closes?, index ≤ scope.index

variable {index : Nat} {steps : List Step} {bound : List (List String)} {ending : List Event}

theorem closesFrom_ofSteps (later : ClosesFrom (index + bound.length) ending) :
    ClosesFrom index (Event.ofSteps index steps bound ++ ending) := by
  induction steps generalizing index bound with
  | nil =>
      intro scope member
      exact Nat.le_of_add_right_le (later scope (by simpa [Event.ofSteps] using member))
  | cons step steps induction =>
      cases bound with
      | nil => exact later
      | cons names bound =>
          have above : ClosesFrom (index + 1)
              (Event.ofSteps (index + 1) steps bound ++ ending) := by
            apply induction
            rw [Nat.add_assoc, Nat.add_comm 1]
            exact later
          intro scope member
          simp only [Event.ofSteps, List.cons_append, List.filterMap_cons, Event.closes?,
            List.mem_cons] at member
          rcases member with rfl | inRest
          · exact Nat.le_refl index
          · exact Nat.le_of_succ_le (above scope inRest)

/-- Steps that complete are closed, if what follows closes later steps only. -/
theorem closed_ofSteps (closed : Closed ending)
    (later : ClosesFrom (index + bound.length) ending) :
    Closed (Event.ofSteps index steps bound ++ ending) := by
  induction steps generalizing index bound with
  | nil => exact closed
  | cons step steps induction =>
      cases bound with
      | nil => exact closed
      | cons names bound =>
          have onward : ClosesFrom (index + 1 + bound.length) ending := by
            rw [Nat.add_assoc, Nat.add_comm 1]
            exact later
          have above : ClosesFrom (index + 1) (Event.ofSteps (index + 1) steps bound ++ ending) :=
            closesFrom_ofSteps onward
          have others : ((Event.ofSteps (index + 1) steps bound ++ ending).filterMap
              Event.closes?).filter (fun closed => closed.index = index) = [] := by
            apply List.filter_eq_nil_iff.mpr
            intro scope member
            have beyond := above scope member
            simp only [decide_eq_true_eq]
            omega
          apply closed_cons.mpr
          constructor
          · intro scope opens
            obtain rfl := Option.some.inj opens
            simp [Event.closes?, -List.filterMap_append, others]
          · apply closed_cons.mpr
            constructor
            · intro scope opens
              simp [Event.opens?] at opens
            · exact induction onward

namespace Run.Ending

variable {pipeline : String} {done : Nat} {result : Except RunError RunResult}

theorem closed
    (ends : Run.Ending pipeline (fun result => [.completed pipeline result.artifacts.length])
      index steps done result ending) (unconflicted : Unconflicted result) :
    Closed ending ∧ ClosesFrom (index + done) ending := by
  cases ends with
  | completed value => simp [closed_cons, closed_nil, ClosesFrom, Event.opens?, Event.closes?]
  | cancelled reason within =>
      simp [closed_cons, closed_nil, ClosesFrom, Event.opens?, Event.closes?]
  | failed found blames =>
      simp [closed_cons, closed_nil, ClosesFrom, Event.opens?, Event.closes?]
  | clashed name found => exact absurd rfl (unconflicted name)

theorem blamed
    (ends : Run.Ending pipeline (fun result => [.completed pipeline result.artifacts.length])
      index steps done result ending) (unconflicted : Unconflicted result)
    (before : List Event) : Blamed result (before ++ ending) := by
  intro error failed
  cases ends with
  | completed value => simp at failed
  | cancelled reason within =>
      left
      exact ⟨reason, _, (Except.error.inj failed).symm⟩
  | @failed _ step _ found blames =>
      right
      obtain rfl := Except.error.inj failed
      refine ⟨step.scope (index + done), ?_, blames.stepIndex?, blames.node?⟩
      rw [List.filterMap_append]
      exact List.getLast?_concat
  | clashed name found => exact absurd rfl (unconflicted name)

theorem of_conflict {name : String}
    (ends : Run.Ending pipeline (fun result : RunResult =>
        [.completed pipeline result.artifacts.length])
      index steps done (.error (.variableConflict name)) ending) :
    ∃ step message, ending =
      [.stepStarted (index + done) (Step.node step) step.kind,
        .failed pipeline "VARIABLE_CONFLICT" message] := by
  cases ends with
  | failed found blames => exact absurd blames id
  | clashed _ found => exact ⟨_, _, rfl⟩

end Run.Ending

namespace Pipeline

variable (pipeline : Pipeline) (config : RunConfig) (host : Host σ) (initial : KeyMap Value)
  (state : σ)

theorem closed_iff :
    Closed (pipeline.execute (config.reporting true) host initial state).2.events ↔
      Unconflicted (pipeline.execute (config.reporting true) host initial state).1 := by
  obtain ⟨bound, ending, traced⟩ := pipeline.exists_traced (config.reporting true) rfl host
    initial state
  rw [traced.events]
  constructor
  · intro closed name conflict
    have ends := traced.ends
    rw [conflict] at ends
    have within : ending <:+ .started pipeline.name pipeline.steps.length ::
        (Event.ofSteps 0 pipeline.steps bound ++ ending) :=
      (List.suffix_append _ _).trans (List.suffix_cons _ _)
    obtain ⟨step, message, rfl⟩ := ends.of_conflict
    have closes : [] = [step.scope (0 + bound.length)] := closed _ _ _ within rfl
    simp at closes
  · intro unconflicted
    obtain ⟨closed, later⟩ := traced.ends.closed unconflicted
    apply closed_cons.mpr
    constructor
    · intro scope opens
      simp [Event.opens?] at opens
    · exact closed_ofSteps closed later

/-- A reporting run blames its error on the step that it began last, unless a name
is bound twice. -/
theorem blamed_iff :
    Blamed (pipeline.execute (config.reporting true) host initial state).1
        (pipeline.execute (config.reporting true) host initial state).2.events ↔
      Unconflicted (pipeline.execute (config.reporting true) host initial state).1 := by
  constructor
  · intro blamed name conflict
    rcases blamed _ conflict with ⟨reason, completed, cancelled⟩ | ⟨scope, -, index, -⟩
    · simp at cancelled
    · simp [RunError.stepIndex?] at index
  · intro unconflicted
    obtain ⟨bound, ending, traced⟩ := pipeline.exists_traced (config.reporting true) rfl host
      initial state
    rw [traced.events, ← List.cons_append]
    exact traced.ends.blamed unconflicted _

/-- A reporting run closes every step and blames every error on a step, exactly if
it does not come to a name that is bound twice. -/
theorem execute_closed_and_blamed_iff :
    (Closed (pipeline.execute (config.reporting true) host initial state).2.events ∧
        Blamed (pipeline.execute (config.reporting true) host initial state).1
          (pipeline.execute (config.reporting true) host initial state).2.events) ↔
      ∀ name, (pipeline.execute (config.reporting true) host initial state).1 ≠
        .error (.variableConflict name) := by
  rw [closed_iff, blamed_iff, and_self]
  rfl

/-- A pipeline of one step, which paints an image. -/
def painting : Pipeline where
  name := "painting"
  steps := [.generate {
    generator := "paint"
    params := .single "prompt" (.string "a calm sea")
    out := "sea" }]

/-- Where the variable of the step has an initial value, the step is begun but not
closed, and the error tells of no step. -/
theorem painting_not_closed_nor_blamed :
    ¬Closed (painting.execute {} (Script.host ({} : Script).reply ∅)
        (.single "sea" (.data "taken")) {}).2.events ∧
      ¬Blamed (painting.execute {} (Script.host ({} : Script).reply ∅)
          (.single "sea" (.data "taken")) {}).1
        (painting.execute {} (Script.host ({} : Script).reply ∅)
          (.single "sea" (.data "taken")) {}).2.events := by
  have conflict : (painting.execute {} (Script.host ({} : Script).reply ∅)
      (.single "sea" (.data "taken")) {}).1 = .error (.variableConflict "sea") := by
    decide +kernel
  constructor
  · intro closed
    exact (painting.closed_iff {} _ _ _).mp closed "sea" conflict
  · intro blamed
    exact (painting.blamed_iff {} _ _ _).mp blamed "sea" conflict

end Pipeline

end Workflow
