import Workflow.Guidance.Report
import Workflow.Proofs.Lookup

/-!
# Guidance for every problem

The standard table has a suggestion for the code of each error and each issue, and what is
registered later only takes the place of a suggestion for the same code.  So every problem
is reported with a hint, whatever has been registered.  The two reports of an error say the
same: what feedback has in fields of its own, the diagnostics have in their context.
-/

namespace Workflow

namespace Guidance

/-- The standard table with suggestions that are registered in order. -/
def extended (registrations : List Suggestion) : Guidance :=
  registrations.foldl register .standard

/-- The suggestion that applies to a code: the last one that was registered for it, and if
there is none, the standard one. -/
inductive Applies (registrations : List Suggestion) (code : String) (suggestion : Suggestion) :
    Prop where
  | registered :
      Last (·.code = code) registrations suggestion →
      Applies registrations code suggestion
  | standard :
      (∀ other ∈ registrations, other.code ≠ code) →
      Last (·.code = code) standardSuggestions suggestion →
      Applies registrations code suggestion

end Guidance

/-- Feedback has a code and the hint of the suggestion that applies to the code. -/
structure Feedback.Guides (feedback : Feedback) (registrations : List Suggestion)
    (about : String) : Prop where
  code : feedback.code = about
  fixHint : ∃ suggestion, Guidance.Applies registrations about suggestion ∧
    feedback.fixHint = some (Text.join "; " suggestion.fixSteps)

/-- Feedback tells of an error with a message that belongs to a node and a step, if to any. -/
structure Feedback.TellsOf (feedback : Feedback) (message : String) (node : Option String)
    (stepIndex : Option Nat) : Prop where
  severity : feedback.severity = .error
  message : feedback.message = message
  node : feedback.node = node
  stepIndex : feedback.stepIndex = stepIndex

/-- Diagnostics and feedback say the same.  The node and the step of the feedback, the latter
in decimal, and nothing else are in the context of the diagnostics. -/
structure Diagnostics.Agrees (diagnostics : Diagnostics) (feedback : Feedback) : Prop where
  code : diagnostics.code = feedback.code
  message : diagnostics.summary = feedback.message
  fixHint : diagnostics.fixHint = feedback.fixHint
  node : diagnostics.context.get? "nodeId" = feedback.node
  stepIndex : diagnostics.context.get? "stepIndex" = feedback.stepIndex.map toString
  alone : ∀ name, name ≠ "nodeId" → name ≠ "stepIndex" → diagnostics.context.get? name = none

namespace Guidance

variable {registrations : List Suggestion} {code : String} {suggestion : Suggestion}

theorem get?_foldl_register (registrations : List Suggestion) (guidance : Guidance)
    (code : String) :
    (registrations.foldl register guidance).get? code =
      (registrations.reverse.find? fun suggestion => suggestion.code = code).or
        (guidance.get? code) := by
  induction registrations generalizing guidance with
  | nil => rfl
  | cons suggestion registrations induction =>
      rw [List.foldl_cons, induction, register, KeyMap.get?_insert, List.reverse_cons,
        List.find?_append, Option.or_assoc, List.find?_singleton]
      by_cases here : suggestion.code = code
      · simp [here]
      · simp [here, Ne.symm here]

theorem get?_standard (code : String) :
    standard.get? code =
      standardSuggestions.reverse.find? fun suggestion => suggestion.code = code := by
  rw [standard, get?_foldl_register]
  exact Option.or_none

theorem get?_extended_eq_some :
    (extended registrations).get? code = some suggestion ↔
      Applies registrations code suggestion := by
  rw [extended, get?_foldl_register, get?_standard, or_find?_reverse_eq_some]
  constructor
  · rintro (registered | ⟨none, standard⟩)
    · exact .registered registered
    · exact .standard none standard
  · rintro (registered | ⟨none, standard⟩)
    · exact .inl registered
    · exact .inr ⟨none, standard⟩

def standardCodes : List String :=
  standardSuggestions.map Suggestion.code

/-- To a code of the standard table a suggestion applies, whatever has been registered. -/
theorem exists_applies (registrations : List Suggestion) (covered : code ∈ standardCodes) :
    ∃ suggestion, Applies registrations code suggestion ∧
      (extended registrations).hint? code = some (Text.join "; " suggestion.fixSteps) := by
  have found : ((extended registrations).get? code).isSome := by
    rw [extended, get?_foldl_register, get?_standard, Option.isSome_or, Bool.or_eq_true]
    right
    simpa [standardCodes] using covered
  obtain ⟨suggestion, found⟩ := Option.isSome_iff_exists.mp found
  refine ⟨suggestion, get?_extended_eq_some.mp found, ?_⟩
  rw [hint?, found, Option.map_some, Suggestion.hint]

end Guidance

theorem CompileError.code_covered (error : CompileError) :
    error.code ∈ Guidance.standardCodes := by
  cases error <;> rw [code] <;> decide

theorem RunError.code_covered (error : RunError) : error.code ∈ Guidance.standardCodes := by
  cases error <;> rw [code] <;> decide

theorem IssueKind.code_covered (kind : IssueKind) : kind.code ∈ Guidance.standardCodes := by
  cases kind <;> decide

namespace Diagnostics

variable (diagnostics : Diagnostics) (key : String) (value : Option String)

@[simp]
theorem code_addContext : (diagnostics.addContext key value).code = diagnostics.code := by
  cases value <;> rfl

@[simp]
theorem summary_addContext : (diagnostics.addContext key value).summary = diagnostics.summary := by
  cases value <;> rfl

@[simp]
theorem fixHint_addContext : (diagnostics.addContext key value).fixHint = diagnostics.fixHint := by
  cases value <;> rfl

theorem get?_addContext (name : String) :
    (diagnostics.addContext key value).context.get? name =
      if name = key then value.or (diagnostics.context.get? name)
      else diagnostics.context.get? name := by
  cases value with
  | none => simp [addContext]
  | some value => simp [addContext, KeyMap.get?_insert]

end Diagnostics

namespace Feedback

/-- The diagnostics that say what feedback says. -/
def diagnostics (feedback : Feedback) : Diagnostics :=
  ({ code := feedback.code
     summary := feedback.message
     fixHint := feedback.fixHint } : Diagnostics)
    |>.addContext "nodeId" feedback.node
    |>.addContext "stepIndex" (feedback.stepIndex.map toString)

theorem diagnostics_agrees (feedback : Feedback) : feedback.diagnostics.Agrees feedback where
  code := by simp [diagnostics]
  message := by simp [diagnostics]
  fixHint := by simp [diagnostics]
  node := by
    rw [diagnostics, Diagnostics.get?_addContext, if_neg (by decide),
      Diagnostics.get?_addContext, if_pos rfl]
    exact Option.or_none
  stepIndex := by
    rw [diagnostics, Diagnostics.get?_addContext, if_pos rfl, Diagnostics.get?_addContext,
      if_neg (by decide)]
    exact Option.or_none
  alone := by
    intro name notNode notStep
    rw [diagnostics, Diagnostics.get?_addContext, if_neg notStep, Diagnostics.get?_addContext,
      if_neg notNode]
    rfl

theorem diagnostics_ofCompileError (guidance : Guidance) (error : CompileError) :
    (ofCompileError guidance error).diagnostics = .ofCompileError guidance error :=
  rfl

theorem diagnostics_ofRunError (guidance : Guidance) (error : RunError) :
    (ofRunError guidance error).diagnostics = .ofRunError guidance error :=
  rfl

theorem guides_of_hint {feedback : Feedback} {registrations : List Suggestion}
    (covered : feedback.code ∈ Guidance.standardCodes)
    (hinted : feedback.fixHint = (Guidance.extended registrations).hint? feedback.code) :
    feedback.Guides registrations feedback.code where
  code := rfl
  fixHint := by
    obtain ⟨suggestion, applies, hint⟩ := Guidance.exists_applies registrations covered
    exact ⟨suggestion, applies, hinted.trans hint⟩

end Feedback

namespace Guidance

/-- Whatever suggestions have been registered, each error and each issue is reported with the
hint that applies to its code; the two reports of an error agree; and feedback keeps what an
issue tells of its place. -/
theorem every_report_guides (registrations : List Suggestion) :
    (∀ error : CompileError,
      (Feedback.ofCompileError (extended registrations) error).Guides registrations error.code ∧
      (Feedback.ofCompileError (extended registrations) error).TellsOf error.message error.node?
        none ∧
      (Diagnostics.ofCompileError (extended registrations) error).Agrees
        (.ofCompileError (extended registrations) error)) ∧
    (∀ error : RunError,
      (Feedback.ofRunError (extended registrations) error).Guides registrations error.code ∧
      (Feedback.ofRunError (extended registrations) error).TellsOf error.message error.node?
        error.stepIndex? ∧
      (Diagnostics.ofRunError (extended registrations) error).Agrees
        (.ofRunError (extended registrations) error)) ∧
    ∀ issue : Issue,
      (Feedback.ofIssue (extended registrations) issue).Guides registrations issue.kind.code ∧
      (Feedback.ofIssue (extended registrations) issue).severity = issue.severity ∧
      (Feedback.ofIssue (extended registrations) issue).stepIndex = some issue.stepIndex ∧
      (Feedback.ofIssue (extended registrations) issue).parameter = issue.parameter := by
  refine ⟨?_, ?_, ?_⟩
  · intro error
    refine ⟨Feedback.guides_of_hint error.code_covered rfl, ⟨rfl, rfl, rfl, rfl⟩, ?_⟩
    rw [← Feedback.diagnostics_ofCompileError]
    exact Feedback.diagnostics_agrees _
  · intro error
    refine ⟨Feedback.guides_of_hint error.code_covered rfl, ⟨rfl, rfl, rfl, rfl⟩, ?_⟩
    rw [← Feedback.diagnostics_ofRunError]
    exact Feedback.diagnostics_agrees _
  · intro issue
    exact ⟨Feedback.guides_of_hint issue.kind.code_covered rfl, rfl, rfl, rfl⟩

/-- Of two suggestions for a code the later one counts. -/
example : (extended [⟨"UNKNOWN_PARAM", "Stray", ["Drop it"]⟩,
    ⟨"UNKNOWN_PARAM", "Typo", ["Look", "Fix"]⟩]).hint? "UNKNOWN_PARAM" = some "Look; Fix" := by
  rw [hint?, extended, get?_foldl_register]
  decide

end Guidance

end Workflow
