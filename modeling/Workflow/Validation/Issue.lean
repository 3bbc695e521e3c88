import Workflow.Step.Basic

/-!
# Validation issues

An issue is a finding about one step of a pipeline.
-/

namespace Workflow

/-- Whether an issue keeps a pipeline from being run. -/
inductive Severity where
  | error
  | warning
  deriving DecidableEq

def Severity.name : Severity → String
  | error => "error"
  | warning => "warning"

def Severity.ofName? (name : String) : Option Severity :=
  match name with
  | "error" => some error
  | "warning" => some warning
  | _ => none

/-- What is wrong with a step. -/
inductive IssueKind where
  /-- A parameter that the provider needs is absent. -/
  | missingRequiredParam
  /-- The provider does not declare a parameter. -/
  | unknownParam
  /-- A parameter does not have the declared type, values or bounds. -/
  | invalidParamType
  /-- The provider is not registered. -/
  | unknownProvider
  deriving DecidableEq

/-- The stable code of a kind of issue. -/
def IssueKind.code : IssueKind → String
  | missingRequiredParam => "MISSING_REQUIRED_PARAM"
  | unknownParam => "UNKNOWN_PARAM"
  | invalidParamType => "INVALID_PARAM_TYPE"
  | unknownProvider => "UNKNOWN_PROVIDER"

/-- A finding about one step. -/
structure Issue where
  severity : Severity
  kind : IssueKind
  message : String
  stepIndex : Nat
  stepKind : StepKind
  provider : String
  parameter : Option String := none
  deriving DecidableEq

namespace Issue

/-- Whether the issue keeps the pipeline from being run. -/
def isError (issue : Issue) : Bool :=
  issue.severity = .error

/-- The line that reports the issue. -/
def line (issue : Issue) : String :=
  s!"[{issue.severity.name}] {issue.kind.code} at step {issue.stepIndex} " ++
    s!"({issue.stepKind.name} '{issue.provider}'): {issue.message}"

/-- Whether any of the issues keeps the pipeline from being run. -/
def anyBlocking (issues : List Issue) : Bool :=
  issues.any isError

end Issue

end Workflow
