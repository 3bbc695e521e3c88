import Workflow.KeyMap
import Workflow.Text

/-!
# Guidance

A table of suggestions: for each code of an error or issue, how it is usually
mended.  The standard table covers every code.
-/

namespace Workflow

/-- How the problem behind a code is mended. -/
structure Suggestion where
  code : String
  title : String
  fixSteps : List String
  deriving DecidableEq

/-- The steps in one line. -/
def Suggestion.hint (suggestion : Suggestion) : String :=
  Text.join "; " suggestion.fixSteps

/-- Suggestions under their codes. -/
abbrev Guidance := KeyMap Suggestion

namespace Guidance

/-- The table with a suggestion, which takes the place of an older one for its
code. -/
def register (guidance : Guidance) (suggestion : Suggestion) : Guidance :=
  guidance.insert suggestion.code suggestion

/-- The hint for a code. -/
def hint? (guidance : Guidance) (code : String) : Option String :=
  (guidance.get? code).map Suggestion.hint

/-- The suggestions that the standard table holds. -/
def standardSuggestions : List Suggestion :=
  [⟨"CYCLE_DETECTED", "Dependency Cycle Detected",
      ["Review the reported nodes", "Remove at least one edge so data flows in one direction"]⟩,
    ⟨"MISSING_CONNECTION", "Missing Connection",
      ["Connect an upstream node to the required input port of the reported node"]⟩,
    ⟨"MISSING_NODE_PARAM", "Missing Node Parameter", ["Set the reported parameter on the node"]⟩,
    ⟨"INVALID_NODE_PARAM", "Invalid Node Parameter",
      ["Use a supported value for the reported parameter",
        "Fan-out count must be a positive integer and mode one of count or array"]⟩,
    ⟨"DUPLICATE_NODE_ID", "Duplicate Node Id", ["Give every node a unique id"]⟩,
    ⟨"UNKNOWN_NODE_REFERENCE", "Unknown Node Reference",
      ["Point the edge at an existing node or remove it"]⟩,
    ⟨"DUPLICATE_PORT", "Duplicate Port Connection", ["Keep a single edge on the reported port"]⟩,
    ⟨"VARIABLE_CONFLICT", "Variable Conflict",
      ["Rename the node whose id collides with a generated slot or context name"]⟩,
    ⟨"MISSING_REQUIRED_PARAM", "Missing Required Parameter",
      ["Add the parameter required by the provider schema"]⟩,
    ⟨"UNKNOWN_PARAM", "Unknown Parameter",
      ["Remove the parameter or check its spelling against the provider schema"]⟩,
    ⟨"INVALID_PARAM_TYPE", "Invalid Parameter Value",
      ["Use a value of the declared type, within the allowed range or values"]⟩,
    ⟨"UNKNOWN_PROVIDER", "Unknown Provider", ["Use a provider with a registered schema"]⟩,
    ⟨"MISSING_VARIABLE", "Missing Variable",
      ["Make sure the upstream node runs and produces a value before this step"]⟩,
    ⟨"MISSING_IMAGE_INPUTS", "Missing Image Inputs",
      ["Connect image-producing nodes to every listed reference or overlay port"]⟩,
    ⟨"UNEXPECTED_VALUE", "Unexpected Value",
      ["Connect a node whose output matches what the port expects"]⟩,
    ⟨"MISSING_OUTPUT_FIELD", "Missing Output Field",
      ["Ask the upstream node for structured output containing the field, " ++
        "or change the field name"]⟩,
    ⟨"FAN_OUT_LENGTH_MISMATCH", "Fan-out Length Mismatch",
      ["Match the fan-out count to the number of array elements the upstream node returns"]⟩,
    ⟨"COLLECT_INCOMPLETE", "Collect Incomplete",
      ["Fix the failing branch, or set waitMode to available"]⟩,
    ⟨"ROUTER_SELECTION_FAILED", "Router Selection Failed",
      ["Make the selection reference an existing candidate index or value"]⟩,
    ⟨"STEP_FAILED", "Provider Failure", ["Check the provider parameters and retry"]⟩,
    ⟨"EMPTY_STEP_OUTPUT", "Empty Step Output",
      ["Check that the provider returns a result for this step"]⟩,
    ⟨"EXECUTION_CANCELLED", "Execution Cancelled", ["Run the pipeline again"]⟩,
    ⟨"INVALID_GRAPH_DOCUMENT", "Invalid Graph Document",
      ["Emit a JSON object with nodes and edges arrays"]⟩,
    ⟨"GENERATION_FAILED", "Generation Failed", ["Retry generation"]⟩]

/-- The standard table. -/
def standard : Guidance :=
  standardSuggestions.foldl register ∅

end Guidance

end Workflow
