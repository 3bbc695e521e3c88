import Workflow.Text

/-!
# Failures of providers and generators

A failure has a message and may have causes, each behind the one before it.
-/

namespace Workflow

/-- A failure with its causes, outermost first. -/
structure Failure where
  message : String
  causes : List String := []
  deriving DecidableEq

/-- The message and every cause, from the outside in. -/
def Failure.trace (failure : Failure) : String :=
  Text.join ": " (failure.message :: failure.causes)

end Workflow
