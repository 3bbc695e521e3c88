import Workflow.Compile.Basic
import Workflow.Guidance.Report
import Workflow.Validation.Basic

/-!
# Repairing generated graphs

A generator is asked for a graph until one compiles and passes validation, or
until the attempts are used up.  Each further attempt is told what was wrong
with the one before it.
-/

namespace Workflow

/-- Settings of repairs. -/
structure RepairConfig where
  /-- How many attempts are made; at least one is made in any case. -/
  maxAttempts : Nat := 3
  deriving DecidableEq

/-- A generator of graphs: a function of its own state, the request and the
feedback on the attempt before. -/
def Generator (σ : Type) : Type :=
  σ → String → List Feedback → Except Failure Graph × σ

/-- The generator that gives prepared answers one after the other and fails
once they are used up. -/
def Generator.prepared : Generator (List (Except Failure Graph)) :=
  fun answers _ _ =>
    match answers with
    | [] => (.error { message := "script exhausted" }, [])
    | answer :: rest => (answer, rest)

/-- A graph that was accepted. -/
structure Accepted where
  graph : Graph
  compiled : Compiled
  /-- The issues that remain, all of them warnings. -/
  warnings : List Issue
  /-- Which attempt it was, the first being one. -/
  attempts : Nat

/-- The attempts were used up. -/
structure Exhausted where
  attempts : Nat
  /-- The feedback on the last attempt. -/
  feedback : List Feedback
  deriving DecidableEq

namespace Exhausted

def code : String := "REPAIR_EXHAUSTED"

/-- The codes and messages of feedback in one line. -/
def summary (feedback : List Feedback) : String :=
  if feedback.isEmpty then
    "none"
  else
    Text.join "; " (feedback.map fun entry => s!"[{entry.code}] {entry.message}")

def message (exhausted : Exhausted) : String :=
  s!"No valid graph after {exhausted.attempts} attempt(s); last feedback: " ++
    summary exhausted.feedback

end Exhausted

/-- What a repair works with besides the generator. -/
structure Workshop where
  registry : Registry := {}
  options : ValidatorOptions := {}
  pipelineName : String := Compile.defaultName
  guidance : Guidance := .standard

namespace Repair

/-- Judges an answer of the generator: a graph with its compilation and its
remaining issues, or the feedback for the next attempt. -/
def judge (workshop : Workshop) :
    Except Failure Graph → Except (List Feedback) (Graph × Compiled × List Issue)
  | .error failure => .error [.ofGenerationFailure workshop.guidance failure]
  | .ok graph =>
      match graph.compile workshop.pipelineName with
      | .error error => .error [.ofCompileError workshop.guidance error]
      | .ok compiled =>
          let issues := compiled.pipeline.validate workshop.registry workshop.options
          if Issue.anyBlocking issues then
            .error ((issues.filter Issue.isError).map (Feedback.ofIssue workshop.guidance))
          else
            .ok (graph, compiled, issues)

/-- A repair that has ended: its outcome, what the generator was told at each
attempt, and the state of the generator. -/
structure Report (σ : Type) where
  outcome : Except Exhausted Accepted
  told : List (List Feedback)
  generator : σ

/-- Makes the given number of attempts after those already made. -/
def attempts (workshop : Workshop) (generator : Generator σ) (request : String) :
    Nat → Nat → List Feedback → σ → Report σ
  | 0, made, feedback, state =>
      { outcome := .error { attempts := made, feedback }, told := [], generator := state }
  | left + 1, made, feedback, state =>
      let (answer, state) := generator state request feedback
      match judge workshop answer with
      | .ok (graph, compiled, warnings) =>
          { outcome := .ok { graph, compiled, warnings, attempts := made + 1 }
            told := [feedback]
            generator := state }
      | .error next =>
          let report := attempts workshop generator request left (made + 1) next state
          { report with told := feedback :: report.told }

end Repair

/-- Asks a generator for a graph.  The first attempt is told the given
feedback. -/
def Workshop.repair (workshop : Workshop) (config : RepairConfig) (generator : Generator σ)
    (request : String) (state : σ) (feedback : List Feedback := []) : Repair.Report σ :=
  Repair.attempts workshop generator request (max 1 config.maxAttempts) 0 feedback state

end Workflow
