import Workflow.Compile.Error
import Workflow.Document.Record
import Workflow.Guidance.Basic
import Workflow.Run.Error
import Workflow.Validation.Issue

/-!
# Reports of problems

A problem is reported in two ways: as diagnostics for a person, and as feedback
for the generator of a graph.  Both carry the hint that the guidance has for
the problem's code.
-/

namespace Workflow

/-- Diagnostics of an error. -/
structure Diagnostics where
  code : String
  summary : String
  fixHint : Option String := none
  /-- What the error is about, such as its node. -/
  context : KeyMap String := ∅
  deriving DecidableEq

/-- A problem as the generator of a graph sees it. -/
structure Feedback where
  code : String
  message : String
  node : Option String := none
  stepIndex : Option Nat := none
  parameter : Option String := none
  severity : Severity
  fixHint : Option String := none
  deriving DecidableEq

namespace Diagnostics

/-- The diagnostics with a further entry of context, if there is one. -/
def addContext (diagnostics : Diagnostics) (name : String) : Option String → Diagnostics
  | some value => { diagnostics with context := diagnostics.context.insert name value }
  | none => diagnostics

/-- The diagnostics of a defect of a graph. -/
def ofCompileError (guidance : Guidance) (error : CompileError) : Diagnostics :=
  ({ code := error.code
     summary := error.message
     fixHint := guidance.hint? error.code } : Diagnostics)
    |>.addContext "nodeId" error.node?

/-- The diagnostics of an error of a run. -/
def ofRunError (guidance : Guidance) (error : RunError) : Diagnostics :=
  ({ code := error.code
     summary := error.message
     fixHint := guidance.hint? error.code } : Diagnostics)
    |>.addContext "nodeId" error.node?
    |>.addContext "stepIndex" (error.stepIndex?.map toString)

def toDocument (diagnostics : Diagnostics) : Document :=
  .record <|
    Document.member "code" (.string diagnostics.code) ++
    Document.member "summary" (.string diagnostics.summary) ++
    Document.member? "fixHint" .string diagnostics.fixHint ++
    if diagnostics.context.isEmpty then
      []
    else
      Document.member "context"
        (.record (diagnostics.context.entries.map fun entry => (entry.1, .string entry.2)))

end Diagnostics

namespace Feedback

/-- Feedback on an error with a code and a message. -/
def ofError (guidance : Guidance) (code message : String) : Feedback :=
  { code, message, severity := .error, fixHint := guidance.hint? code }

/-- Feedback on a defect of a graph. -/
def ofCompileError (guidance : Guidance) (error : CompileError) : Feedback :=
  { ofError guidance error.code error.message with
    node := error.node?
    parameter := error.parameter? }

/-- Feedback on an issue. -/
def ofIssue (guidance : Guidance) (issue : Issue) : Feedback :=
  { code := issue.kind.code
    message := issue.line
    stepIndex := some issue.stepIndex
    parameter := issue.parameter
    severity := issue.severity
    fixHint := guidance.hint? issue.kind.code }

/-- Feedback on an error of a run. -/
def ofRunError (guidance : Guidance) (error : RunError) : Feedback :=
  { ofError guidance error.code error.message with
    node := error.node?
    stepIndex := error.stepIndex? }

/-- Feedback on a failure of the generator. -/
def ofGenerationFailure (guidance : Guidance) (failure : Failure) : Feedback :=
  ofError guidance "GENERATION_FAILED" ("Graph generation failed: " ++ failure.trace)

def knownFields : List Field :=
  [⟨"code", []⟩, ⟨"message", []⟩, ⟨"nodeId", []⟩, ⟨"stepIndex", []⟩, ⟨"parameterName", []⟩,
    ⟨"severity", []⟩, ⟨"fixHint", []⟩]

def ofDocument? (document : Document) : Option Feedback := do
  let fields ← document.fields? knownFields
  let code ← fields.required "code" Document.string?
  let message ← fields.required "message" Document.string?
  let node ← fields.optional "nodeId" Document.string?
  let stepIndex ← fields.optional "stepIndex" Document.nat?
  let parameter ← fields.optional "parameterName" Document.string?
  let severity ← fields.required "severity" (Document.word? Severity.ofName?)
  let fixHint ← fields.optional "fixHint" Document.string?
  some { code, message, node, stepIndex, parameter, severity, fixHint }

def toDocument (feedback : Feedback) : Document :=
  .record <|
    Document.member "code" (.string feedback.code) ++
    Document.member "message" (.string feedback.message) ++
    Document.member? "nodeId" .string feedback.node ++
    Document.member? "stepIndex" .nat feedback.stepIndex ++
    Document.member? "parameterName" .string feedback.parameter ++
    Document.member "severity" (.string feedback.severity.name) ++
    Document.member? "fixHint" .string feedback.fixHint

end Feedback

namespace Issue

def toDocument (issue : Issue) : Document :=
  .record <|
    Document.member "severity" (.string issue.severity.name) ++
    Document.member "code" (.string issue.kind.code) ++
    Document.member "message" (.string issue.message) ++
    Document.member "stepIndex" (.nat issue.stepIndex) ++
    Document.member "stepKind" (.string issue.stepKind.name) ++
    Document.member "providerName" (.string issue.provider) ++
    Document.member? "parameterName" .string issue.parameter

end Issue

end Workflow
