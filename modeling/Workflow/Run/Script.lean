import Workflow.Run.Execute
import Workflow.Run.Token

/-!
# Scripted providers

Providers whose answers are written down beforehand, for trying out pipelines:
one answers by the node of a request, the other always fails.  Both can be made
a host whose cancellation is a token.
-/

namespace Workflow

/-- Answers under the nodes they are for. -/
structure Script where
  outputs : KeyMap Output := ∅
  failures : KeyMap Failure := ∅
  deriving DecidableEq

namespace Script

/-- The script with an output for a node. -/
def withOutput (script : Script) (node : String) (output : Output) : Script :=
  { script with outputs := script.outputs.insert node output }

/-- The script with a text as the output for a node. -/
def withText (script : Script) (node text : String) : Script :=
  script.withOutput node (.value (.data text))

/-- The script with a failure for a node. -/
def withFailure (script : Script) (node : String) (failure : Failure) : Script :=
  { script with failures := script.failures.insert node failure }

/-- The output for a node that the script does not name: an image or a text
that tells its provider and node. -/
def defaultOutput (request : Request) : Output :=
  match request.kind with
  | .generate | .transform =>
      .value (.image { data := Text.bytes (request.provider ++ ":" ++ request.node) })
  | .vision | .text => .value (.data s!"{request.provider} output for {request.node}")
  | .save | .fanOut | .collect | .router => .empty

/-- The answer to a request; a failure counts before an output. -/
def reply (script : Script) (request : Request) : Reply :=
  match script.failures.get? request.node with
  | some failure => .error failure
  | none => .ok ((script.outputs.get? request.node).getD (defaultOutput request))

/-- The failure of a provider that always fails. -/
def failing (message : String) (request : Request) : Reply :=
  .error { message := s!"{message} ({request.provider})" }

/-- What a provider that always fails says if nobody tells it what to say. -/
def unavailable : String := "provider unavailable"

/-- A host that answers by a function of the request.  Its state is a token,
which is cancelled for the given reason while a node's request is served. -/
def host (reply : Request → Reply) (during : KeyMap String) : Host Token :=
  { serve := fun token request =>
      (reply request,
        match during.get? request.node with
        | some reason => token.cancel reason
        | none => token)
    poll := fun token => (token.reason, token) }

end Script

/-- A scripted provider together with the requests it has answered, the oldest
first. -/
structure Rehearsal where
  script : Script
  requests : List Request := []

namespace Rehearsal

/-- Answers a request and remembers it. -/
def run (rehearsal : Rehearsal) (request : Request) : Reply × Rehearsal :=
  (rehearsal.script.reply request,
    { rehearsal with requests := rehearsal.requests ++ [request] })

/-- The first request for a node. -/
def requestFor? (rehearsal : Rehearsal) (node : String) : Option Request :=
  rehearsal.requests.find? fun request => request.node = node

/-- The nodes of the requests. -/
def nodes (rehearsal : Rehearsal) : List String :=
  rehearsal.requests.map Request.node

/-- Forgets the requests. -/
def reset (rehearsal : Rehearsal) : Rehearsal :=
  { rehearsal with requests := [] }

end Rehearsal

end Workflow
