import Mathlib.Logic.Function.Iterate
import Workflow.Proofs.Outcome
import Workflow.Repair.Basic

/-!
# What a repair comes to

A generator that is told, call after call, what was wrong with its answer makes a
sequence of calls without end.  A repair makes the first of these calls, up to the
first answer that is acceptable or up to its limit, and its report tells of just
these calls.
-/

namespace Workflow

theorem Issue.severity_eq_warning_iff {issue : Issue} :
    issue.severity = .warning ↔ ¬issue.isError := by
  unfold isError
  cases issue.severity <;> simp

namespace Workshop

variable {workshop : Workshop} {answer : Except Failure Graph}

/-- An answer is a graph that compiles to a pipeline without errors. -/
def Acceptable (workshop : Workshop) (answer : Except Failure Graph) : Prop :=
  ∃ graph compiled, answer = .ok graph ∧ graph.compile workshop.pipelineName = .ok compiled ∧
    ∀ issue ∈ compiled.pipeline.validate workshop.registry workshop.options, ¬issue.isError

/-- What is wrong with an answer: that there is no graph, that it does not compile, or
the errors of its pipeline in their order. -/
def complaints (workshop : Workshop) : Except Failure Graph → List Feedback
  | .error failure => [.ofGenerationFailure workshop.guidance failure]
  | .ok graph =>
      match graph.compile workshop.pipelineName with
      | .error error => [.ofCompileError workshop.guidance error]
      | .ok compiled =>
          ((compiled.pipeline.validate workshop.registry workshop.options).filter
            Issue.isError).map (.ofIssue workshop.guidance)

theorem complaints_eq_nil : workshop.complaints answer = [] ↔ workshop.Acceptable answer := by
  unfold Acceptable
  cases answer with
  | error failure => simp [complaints]
  | ok graph =>
      cases compiles : graph.compile workshop.pipelineName with
      | error error => simp [complaints, compiles]
      | ok compiled => simp [complaints, compiles]

/-- What one entry of feedback tells of an answer, in all its fields: why there is no graph,
why the graph does not compile, or one of the errors of its pipeline. -/
inductive Complains (workshop : Workshop) : Except Failure Graph → Feedback → Prop where
  | generation (failure : Failure) :
      Complains workshop (.error failure) {
        code := "GENERATION_FAILED"
        message := "Graph generation failed: " ++ failure.trace
        node := none
        stepIndex := none
        parameter := none
        severity := .error
        fixHint := workshop.guidance.hint? "GENERATION_FAILED" }
  | compilation {graph : Graph} {error : CompileError} :
      graph.compile workshop.pipelineName = .error error →
      Complains workshop (.ok graph) {
        code := error.code
        message := error.message
        node := error.node?
        stepIndex := none
        parameter := error.parameter?
        severity := .error
        fixHint := workshop.guidance.hint? error.code }
  | validation {graph : Graph} {compiled : Compiled} {issue : Issue} :
      graph.compile workshop.pipelineName = .ok compiled →
      issue ∈ compiled.pipeline.validate workshop.registry workshop.options →
      issue.severity = .error →
      Complains workshop (.ok graph) {
        code := issue.kind.code
        message := issue.line
        node := none
        stepIndex := some issue.stepIndex
        parameter := issue.parameter
        severity := .error
        fixHint := workshop.guidance.hint? issue.kind.code }

theorem mem_complaints {entry : Feedback} :
    entry ∈ workshop.complaints answer ↔ workshop.Complains answer entry := by
  constructor
  · intro member
    unfold complaints at member
    split at member
    · obtain rfl := List.mem_singleton.mp member
      exact .generation _
    · split at member
      · rename_i error fails
        obtain rfl := List.mem_singleton.mp member
        exact .compilation fails
      · rename_i compiled compiles
        obtain ⟨issue, listed, rfl⟩ := List.mem_map.mp member
        obtain ⟨reported, isError⟩ := List.mem_filter.mp listed
        have severity : issue.severity = .error := of_decide_eq_true isError
        rw [Feedback.ofIssue, severity]
        exact .validation compiles reported severity
  · intro complains
    cases complains with
    | generation failure => exact List.mem_singleton_self _
    | compilation fails =>
        rw [complaints, fails]
        exact List.mem_singleton_self _
    | @validation graph compiled issue compiles reported severity =>
        rw [complaints, compiles]
        refine List.mem_map.mpr ⟨issue, List.mem_filter.mpr ⟨reported, ?_⟩, ?_⟩
        · exact decide_eq_true severity
        · rw [Feedback.ofIssue, severity]

theorem Complains.severity {entry : Feedback} (complains : workshop.Complains answer entry) :
    entry.severity = .error := by
  cases complains <;> rfl

/-- What is accepted of an answer: its graph, the compilation of the graph and all
issues, none of which is an error. -/
structure Accepts (workshop : Workshop) (answer : Except Failure Graph)
    (accepted : Accepted) : Prop where
  graph : answer = .ok accepted.graph
  compiled : accepted.graph.compile workshop.pipelineName = .ok accepted.compiled
  warnings : accepted.warnings =
    accepted.compiled.pipeline.validate workshop.registry workshop.options
  harmless : ∀ issue ∈ accepted.warnings, issue.severity = .warning

theorem Accepts.acceptable {accepted : Accepted} (accepts : workshop.Accepts answer accepted) :
    workshop.Acceptable answer := by
  refine ⟨accepted.graph, accepted.compiled, accepts.graph, accepts.compiled, ?_⟩
  rw [← accepts.warnings]
  intro issue listed
  exact Issue.severity_eq_warning_iff.mp (accepts.harmless issue listed)

end Workshop

namespace Repair

/-- An answer is accepted, or it is refused for what is wrong with it. -/
theorem judge_cases (workshop : Workshop) (answer : Except Failure Graph) :
    (∃ graph compiled warnings, judge workshop answer = .ok (graph, compiled, warnings) ∧
      ∀ attempts, workshop.Accepts answer { graph, compiled, warnings, attempts }) ∨
      judge workshop answer = .error (workshop.complaints answer) ∧
        ¬workshop.Acceptable answer := by
  rw [← Workshop.complaints_eq_nil]
  cases answer with
  | error failure => exact Or.inr ⟨rfl, List.cons_ne_nil _ _⟩
  | ok graph =>
      cases compiles : graph.compile workshop.pipelineName with
      | error error =>
          right
          simp [judge, Workshop.complaints, compiles]
      | ok compiled =>
          let issues := compiled.pipeline.validate workshop.registry workshop.options
          by_cases blocks : Issue.anyBlocking issues
          · right
            have errors : ¬∀ issue ∈ issues, ¬issue.isError := by
              simpa [Issue.anyBlocking] using blocks
            constructor
            · simp only [judge, Workshop.complaints, compiles]
              exact if_pos blocks
            · simpa [Workshop.complaints, compiles, issues] using errors
          · left
            refine ⟨graph, compiled, issues, ?_, ?_⟩
            · simp only [judge, compiles]
              exact if_neg blocks
            · intro attempts
              refine ⟨rfl, compiles, rfl, ?_⟩
              intro issue listed
              apply Issue.severity_eq_warning_iff.mpr
              intro isError
              exact blocks (List.any_eq_true.mpr ⟨issue, listed, isError⟩)

/-- What a call of a generator finds: the feedback and the generator's state. -/
structure Call (σ : Type) where
  told : List Feedback
  state : σ

namespace Call

variable (workshop : Workshop) (generator : Generator σ) (request : String)

def answer (call : Call σ) : Except Failure Graph :=
  (generator call.state request call.told).1

/-- The call after another, which is told what was wrong with the answer to that one. -/
def next (call : Call σ) : Call σ where
  told := workshop.complaints (call.answer generator request)
  state := (generator call.state request call.told).2

/-- The call that comes when a number of others are made, of which the first is given. -/
def following (first : Call σ) (made : Nat) : Call σ :=
  (next workshop generator request)^[made] first

theorem following_succ (first : Call σ) (made : Nat) :
    first.following workshop generator request (made + 1) =
      (first.next workshop generator request).following workshop generator request made :=
  Function.iterate_succ_apply _ made first

theorem map_told_succ (first : Call σ) (made : Nat) :
    ((List.range (made + 1)).map fun k =>
        (first.following workshop generator request k).told) =
      first.told :: (List.range made).map fun k =>
        ((first.next workshop generator request).following workshop generator request k).told := by
  rw [List.range_succ_eq_map, List.map_cons, List.map_map]
  rfl

variable {workshop generator request}

theorem refused_succ {first : Call σ} {made : Nat}
    (refused : ¬workshop.Acceptable (first.answer generator request))
    (later : ∀ k < made, ¬workshop.Acceptable (((first.next workshop generator request).following
      workshop generator request k).answer generator request)) :
    ∀ k < made + 1, ¬workshop.Acceptable
      ((first.following workshop generator request k).answer generator request) := by
  intro k early
  cases k with
  | zero => exact refused
  | succ k =>
      rw [following_succ]
      exact later k (Nat.lt_of_succ_lt_succ early)

end Call

/-- All that can come of a number of attempts that begin with a call, when others were
made before. -/
inductive Ending (workshop : Workshop) (generator : Generator σ) (request : String)
    (limit before : Nat) (call : Nat → Call σ) : Report σ → Prop
  | accepted {last : Nat} {result : Accepted} :
      last < limit →
      (∀ k < last, ¬workshop.Acceptable ((call k).answer generator request)) →
      workshop.Accepts ((call last).answer generator request) result →
      result.attempts = before + last + 1 →
      Ending workshop generator request limit before call {
        outcome := .ok result
        told := (List.range (last + 1)).map fun k => (call k).told
        generator := (call (last + 1)).state }
  | exhausted :
      (∀ k < limit, ¬workshop.Acceptable ((call k).answer generator request)) →
      Ending workshop generator request limit before call {
        outcome := .error { attempts := before + limit, feedback := (call limit).told }
        told := (List.range limit).map fun k => (call k).told
        generator := (call limit).state }

theorem Ending.of_next {workshop : Workshop} {generator : Generator σ} {request : String}
    {limit before : Nat} {first : Call σ} {report : Report σ}
    (refused : ¬workshop.Acceptable (first.answer generator request))
    (ending : Ending workshop generator request limit (before + 1)
      ((first.next workshop generator request).following workshop generator request) report) :
    Ending workshop generator request (limit + 1) before
      (first.following workshop generator request)
      { report with told := first.told :: report.told } := by
  cases ending with
  | @accepted last result early later accepts count =>
      dsimp only
      rw [← Call.map_told_succ, ← Call.following_succ]
      refine .accepted (Nat.succ_lt_succ early) (Call.refused_succ refused later) ?_ ?_
      · rw [Call.following_succ]
        exact accepts
      · omega
  | exhausted later =>
      dsimp only
      rw [← Call.map_told_succ, ← Call.following_succ, Nat.add_assoc, Nat.add_comm 1]
      exact .exhausted (Call.refused_succ refused later)

theorem attempts_ending (workshop : Workshop) (generator : Generator σ) (request : String)
    (limit before : Nat) (first : Call σ) :
    Ending workshop generator request limit before (first.following workshop generator request)
      (attempts workshop generator request limit before first.told first.state) := by
  induction limit generalizing before first with
  | zero => exact .exhausted fun k early => absurd early (Nat.not_lt_zero k)
  | succ limit induction =>
      unfold attempts
      rcases judge_cases workshop (first.answer generator request) with
        ⟨graph, compiled, warnings, judged, accepts⟩ | ⟨judged, refused⟩
      · have judged : judge workshop (generator first.state request first.told).1 =
            .ok (graph, compiled, warnings) := judged
        simp only [judged]
        exact @Ending.accepted σ workshop generator request (limit + 1) before _ 0
          { graph, compiled, warnings, attempts := before + 1 } (Nat.succ_pos limit)
          (fun k early => absurd early (Nat.not_lt_zero k)) (accepts (before + 1)) rfl
      · have judged : judge workshop (generator first.state request first.told).1 =
            .error (workshop.complaints (first.answer generator request)) := judged
        simp only [judged]
        exact .of_next refused (induction (before + 1) (first.next workshop generator request))

/-- What a report tells where the last call made is the one with the given index: the
repair stops at the first acceptable answer, or it makes all calls of its limit. -/
structure Report.Tells (report : Report σ) (workshop : Workshop) (generator : Generator σ)
    (request : String) (call : Nat → Call σ) (limit last : Nat) : Prop where
  within : last < limit
  told : report.told = (List.range (last + 1)).map fun k => (call k).told
  state : report.generator = (call (last + 1)).state
  refused : ∀ k < last, ¬workshop.Acceptable ((call k).answer generator request)
  succeeds : (∃ accepted, report.outcome = .ok accepted) ↔
    ∃ k < limit, workshop.Acceptable ((call k).answer generator request)
  accepted : ∀ accepted, report.outcome = .ok accepted → accepted.attempts = last + 1 ∧
    workshop.Accepts ((call last).answer generator request) accepted
  exhausted : ∀ exhausted, report.outcome = .error exhausted → last + 1 = limit ∧
    exhausted.attempts = limit ∧
      exhausted.feedback = workshop.complaints ((call last).answer generator request) ∧
        exhausted.feedback ≠ [] ∧ ∀ entry ∈ exhausted.feedback, entry.severity = .error

theorem Ending.tells {workshop : Workshop} {generator : Generator σ} {request : String}
    {limit : Nat} {call : Nat → Call σ} {report : Report σ} (positive : 0 < limit)
    (follows : ∀ k, call (k + 1) = (call k).next workshop generator request)
    (ending : Ending workshop generator request limit 0 call report) :
    ∃ last, report.Tells workshop generator request call limit last := by
  cases ending with
  | @accepted last result early refused accepts count =>
      refine ⟨last, early, rfl, rfl, refused, ?_, ?_, ?_⟩
      · exact iff_of_true ⟨result, rfl⟩ ⟨last, early, accepts.acceptable⟩
      · intro accepted same
        obtain rfl := Except.ok.inj same
        exact ⟨by omega, accepts⟩
      · intro exhausted impossible
        cases impossible
  | exhausted refused =>
      obtain ⟨last, rfl⟩ := Nat.exists_eq_succ_of_ne_zero (Nat.ne_of_gt positive)
      have feedback : (call (last + 1)).told =
          workshop.complaints ((call last).answer generator request) := by
        rw [follows]
        rfl
      refine ⟨last, Nat.lt_succ_self last, rfl, rfl, ?_, ?_, ?_, ?_⟩
      · exact fun k early => refused k (Nat.lt_succ_of_lt early)
      · apply iff_of_false
        · intro success
          obtain ⟨accepted, impossible⟩ := success
          cases impossible
        · intro success
          obtain ⟨k, early, acceptable⟩ := success
          exact refused k early acceptable
      · intro accepted impossible
        cases impossible
      · intro exhausted same
        obtain rfl := Except.error.inj same
        refine ⟨rfl, Nat.zero_add _, feedback, ?_, ?_⟩
        · intro nothing
          rw [feedback] at nothing
          exact refused last (Nat.lt_succ_self last) (Workshop.complaints_eq_nil.mp nothing)
        · intro entry member
          rw [feedback] at member
          exact (Workshop.mem_complaints.mp member).severity

end Repair

/-- A repair makes calls up to the first acceptable answer, one at least and no more than
its limit, and tells each what was wrong with the answer to the call before it. -/
theorem Workshop.repair_tells (workshop : Workshop) (config : RepairConfig)
    (generator : Generator σ) (request : String) (state : σ) (feedback : List Feedback) :
    ∃ call : Nat → Repair.Call σ, call 0 = { told := feedback, state } ∧
      (∀ k, call (k + 1) = (call k).next workshop generator request) ∧
        ∃ last, (workshop.repair config generator request state feedback).Tells workshop generator
          request call (max 1 config.maxAttempts) last := by
  let first : Repair.Call σ := { told := feedback, state }
  have positive : 0 < max 1 config.maxAttempts :=
    Nat.lt_of_lt_of_le Nat.one_pos (Nat.le_max_left 1 config.maxAttempts)
  have follows : ∀ k, first.following workshop generator request (k + 1) =
      (first.following workshop generator request k).next workshop generator request :=
    fun k => Function.iterate_succ_apply' _ k first
  have ending := Repair.attempts_ending workshop generator request (max 1 config.maxAttempts) 0 first
  exact ⟨first.following workshop generator request, rfl, follows, ending.tells positive follows⟩

end Workflow
