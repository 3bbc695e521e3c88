/-!
# Cancellation tokens

A token asks a run to stop before its next step.  The first reason counts.
-/

namespace Workflow

/-- Whether and why a run is asked to stop. -/
structure Token where
  reason : Option String := none
  deriving DecidableEq

namespace Token

/-- Asks the run to stop; a token that was cancelled before keeps its reason. -/
def cancel (token : Token) (reason : String) : Token :=
  ⟨token.reason.or (some reason)⟩

/-- Whether the run is asked to stop. -/
def isCancelled (token : Token) : Bool :=
  token.reason.isSome

end Token

end Workflow
