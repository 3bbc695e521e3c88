import Workflow.Document.Record
import Workflow.Run.Id
import Workflow.Step.Basic

/-!
# Events

A run reports its beginning, its end, and the beginning and end of each step.
-/

namespace Workflow

/-- What a run reports. -/
inductive Event where
  /-- The run begins. -/
  | started (pipeline : String) (stepCount : Nat)
  /-- A step begins. -/
  | stepStarted (index : Nat) (node : String) (kind : StepKind)
  /-- A step ends and its variables are bound. -/
  | stepCompleted (index : Nat) (node : String) (kind : StepKind) (outputs : List String)
  /-- A step fails. -/
  | stepFailed (index : Nat) (node : String) (kind : StepKind) (code message : String)
  /-- Every step has ended. -/
  | completed (pipeline : String) (artifactCount : Nat)
  /-- The run ends with an error. -/
  | failed (pipeline code message : String)
  /-- The run ends before its next step since it was cancelled. -/
  | cancelled (pipeline reason : String) (completedSteps : Nat)
  deriving DecidableEq

namespace Event

def name : Event → String
  | started .. => "pipeline.started"
  | stepStarted .. => "step.started"
  | stepCompleted .. => "step.completed"
  | stepFailed .. => "step.failed"
  | completed .. => "pipeline.completed"
  | failed .. => "pipeline.failed"
  | cancelled .. => "pipeline.cancelled"

/-- Whether the event tells how long something took. -/
def isTimed : Event → Bool
  | stepCompleted .. | completed .. => true
  | _ => false

/-- The members of an event's document after its name. -/
def members : Event → List (String × Document)
  | started pipeline stepCount =>
      [("pipeline", .string pipeline), ("stepCount", .nat stepCount)]
  | stepStarted index node kind =>
      [("stepIndex", .nat index), ("nodeId", .string node), ("kind", .string kind.name)]
  | stepCompleted index node kind outputs =>
      [("stepIndex", .nat index), ("nodeId", .string node), ("kind", .string kind.name),
        ("outputs", .strings outputs)]
  | stepFailed index node kind code message =>
      [("stepIndex", .nat index), ("nodeId", .string node), ("kind", .string kind.name),
        ("code", .string code), ("message", .string message)]
  | completed pipeline artifactCount =>
      [("pipeline", .string pipeline), ("artifactCount", .nat artifactCount)]
  | failed pipeline code message =>
      [("pipeline", .string pipeline), ("code", .string code), ("message", .string message)]
  | cancelled pipeline reason completedSteps =>
      [("pipeline", .string pipeline), ("reason", .string reason),
        ("completedSteps", .nat completedSteps)]

def toDocument (event : Event) : Document :=
  .record (("type", .string event.name) :: event.members)

end Event

/-- An event of one run, with the time it took where it tells one. -/
structure Notice where
  run : RunId
  event : Event
  milliseconds : Nat := 0
  deriving DecidableEq

namespace Notice

def toDocument (notice : Notice) : Document :=
  .record <|
    [("type", .string notice.event.name), ("runId", .string notice.run.text)] ++
    notice.event.members ++
    if notice.event.isTimed then [("durationMs", .nat notice.milliseconds)] else []

end Notice

/-- The notices that a sink has collected, the oldest first. -/
structure Sink where
  notices : List Notice := []
  deriving DecidableEq

namespace Sink

/-- Takes up a notice. -/
def emit (sink : Sink) (notice : Notice) : Sink :=
  ⟨sink.notices ++ [notice]⟩

/-- The names of the collected events. -/
def names (sink : Sink) : List String :=
  sink.notices.map fun notice => notice.event.name

/-- The collected notices of events whose names start so. -/
def ofType (sink : Sink) (start : String) : List Notice :=
  sink.notices.filter fun notice => Text.startsWith start notice.event.name

end Sink

end Workflow
