import Workflow.Failure
import Workflow.Step.Basic

/-!
# Errors of runs

A run stops at its first error.  Every error but a conflict of variables and a
cancellation belongs to a step.
-/

namespace Workflow

/-- The step that an error belongs to. -/
structure Scope where
  index : Nat
  node : String
  kind : StepKind
  deriving DecidableEq

namespace Scope

/-- How messages name a step. -/
def label (scope : Scope) : String :=
  s!"Step {scope.index} ({scope.kind.name} '{scope.node}')"

end Scope

/-- The two ports for further images. -/
inductive ImagePort where
  | references
  | overlays
  deriving DecidableEq

/-- What one image of a port is called. -/
def ImagePort.name : ImagePort → String
  | references => "reference"
  | overlays => "overlay"

/-- An error of a run. -/
inductive RunError where
  /-- A variable that the step reads is not bound. -/
  | missingVariable (scope : Scope) (name : String)
  /-- Images that the step reads are not bound. -/
  | missingImages (scope : Scope) (port : ImagePort) (missing : List ImageRef)
  /-- A variable holds a value of the wrong type. -/
  | unexpectedValue (scope : Scope) (name expected found : String)
  /-- The structured content of a variable has no such field. -/
  | missingField (scope : Scope) (name field : String)
  /-- An array has not as many items as the fan-out has slots. -/
  | lengthMismatch (index : Nat) (node property : String) (expected actual : Nat)
  /-- A collector lacks inputs that it needs. -/
  | collectIncomplete (index : Nat) (node : String) (missing : List String)
  /-- A router cannot select. -/
  | selection (index : Nat) (node reason : String)
  /-- The provider of the step failed. -/
  | stepFailed (scope : Scope) (provider : String) (failure : Failure)
  /-- The provider of the step returned nothing. -/
  | emptyOutput (scope : Scope)
  /-- A variable would be bound twice. -/
  | variableConflict (name : String)
  /-- The run was cancelled between two steps. -/
  | cancelled (reason : String) (completed : Nat)
  deriving DecidableEq

namespace RunError

def code : RunError → String
  | missingVariable .. => "MISSING_VARIABLE"
  | missingImages .. => "MISSING_IMAGE_INPUTS"
  | unexpectedValue .. => "UNEXPECTED_VALUE"
  | missingField .. => "MISSING_OUTPUT_FIELD"
  | lengthMismatch .. => "FAN_OUT_LENGTH_MISMATCH"
  | collectIncomplete .. => "COLLECT_INCOMPLETE"
  | selection .. => "ROUTER_SELECTION_FAILED"
  | stepFailed .. => "STEP_FAILED"
  | emptyOutput .. => "EMPTY_STEP_OUTPUT"
  | variableConflict .. => "VARIABLE_CONFLICT"
  | cancelled .. => "EXECUTION_CANCELLED"

/-- How a message lists a missing image. -/
def missingImageText (image : ImageRef) : String :=
  s!"{image.name} (index {image.index})"

def message : RunError → String
  | missingVariable scope name => s!"{scope.label}: variable '{name}' was never produced"
  | missingImages scope port missing =>
      s!"{scope.label}: missing {port.name} images: " ++
        Text.join ", " (missing.map missingImageText)
  | unexpectedValue scope name expected found =>
      s!"{scope.label}: variable '{name}' holds {found}, expected {expected}"
  | missingField scope name field =>
      s!"{scope.label}: output of '{name}' has no field '{field}'"
  | lengthMismatch index node property expected actual =>
      s!"Step {index} (fan-out '{node}'): array '{property}' has {actual} elements " ++
        s!"but {expected} slots are declared"
  | collectIncomplete index node missing =>
      s!"Step {index} (collect '{node}'): inputs were never produced: " ++
        Text.join ", " missing
  | selection index node reason => s!"Step {index} (router '{node}'): {reason}"
  | stepFailed scope provider failure =>
      s!"{scope.label} failed in provider '{provider}': {failure.message}"
  | emptyOutput scope => s!"{scope.label} returned no output"
  | variableConflict name => s!"Variable '{name}' is already bound"
  | cancelled reason completed =>
      s!"Execution cancelled after {completed} step(s): {reason}"

/-- The index of the step that an error belongs to. -/
def stepIndex? : RunError → Option Nat
  | missingVariable scope _ | missingImages scope _ _ | unexpectedValue scope _ _ _
  | missingField scope _ _ | stepFailed scope _ _ | emptyOutput scope => some scope.index
  | lengthMismatch index _ _ _ _ | collectIncomplete index _ _ | selection index _ _ =>
      some index
  | variableConflict _ | cancelled _ _ => none

/-- The node of the step that an error belongs to. -/
def node? : RunError → Option String
  | missingVariable scope _ | missingImages scope _ _ | unexpectedValue scope _ _ _
  | missingField scope _ _ | stepFailed scope _ _ | emptyOutput scope => some scope.node
  | lengthMismatch _ node _ _ _ | collectIncomplete _ node _ | selection _ node _ => some node
  | variableConflict _ | cancelled _ _ => none

end RunError

end Workflow
