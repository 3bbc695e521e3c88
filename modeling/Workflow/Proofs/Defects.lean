import Workflow.Proofs.Validation

/-!
# What validation reports

`Step.Defect` tells by the schemas and the parameters alone what is wrong with a step.
Validation has one issue for each defect and no other: the parameters that are missing in
ascending order of name, and then those that are given and refused.  A parameter is
missing or given, so that no parameter of a step is reported twice.
-/

namespace Workflow

/-- The schema that counts for a provider of steps of a kind: the one for that kind, and if
there is none, the one for any kind. -/
inductive Registry.Governs (registry : Registry) (provider : String) (kind : StepKind)
    (schema : ProviderSchema) : Prop where
  | specific :
      registry.find? provider (some kind) = some schema →
      Governs registry provider kind schema
  | general :
      registry.find? provider (some kind) = none →
      registry.find? provider none = some schema →
      Governs registry provider kind schema

/-- A step whose provider has a schema. -/
structure Step.Governed (registry : Registry) (step : Step) (provider : String)
    (schema : ProviderSchema) (params : Params) : Prop where
  kind : step.kind ∈ [.generate, .transform, .vision, .text]
  named : step.provider? = some provider
  governs : registry.Governs provider step.kind schema
  has : step.params? = some params

/-- What is wrong with a step, and with which of its parameters. -/
inductive Step.Defect (registry : Registry) (options : ValidatorOptions) (step : Step) :
    Severity → IssueKind → Option String → Prop where
  | unknownProvider {provider : String} :
      step.kind ∈ [.generate, .transform, .vision, .text] →
      step.provider? = some provider →
      (∀ schema, ¬registry.Governs provider step.kind schema) →
      options.requireSchemas →
      Defect registry options step .error .unknownProvider none
  | missing {provider name : String} {schema : ProviderSchema} {params : Params}
      {spec : ParamSpec} :
      step.Governed registry provider schema params →
      schema.parameters.get? name = some spec → spec.required →
      ¬options.isInternal name → name ∉ Validation.supplied step →
      params.value? name = none →
      Defect registry options step .error .missingRequiredParam (some name)
  | unknown {provider name : String} {schema : ProviderSchema} {params : Params}
      {value : Json} :
      step.Governed registry provider schema params →
      params.value? name = some value →
      ¬options.isInternal name → name ≠ "prePrompt" →
      schema.parameters.get? name = none →
      Defect registry options step (if options.strictUnknownParams then .error else .warning)
        .unknownParam (some name)
  | refused {provider name : String} {schema : ProviderSchema} {params : Params}
      {value : Json} {spec : ParamSpec} :
      step.Governed registry provider schema params →
      params.value? name = some value →
      ¬options.isInternal name → name ≠ "prePrompt" →
      schema.parameters.get? name = some spec → ¬spec.Admits value →
      Defect registry options step .error .invalidParamType (some name)

/-- The order of issues: by step, and at one step the missing parameters before the others,
both in ascending order of name. -/
inductive Issue.Before : Issue → Issue → Prop where
  | step {first later : Issue} : first.stepIndex < later.stepIndex → Before first later
  | missing {first later : Issue} :
      first.stepIndex = later.stepIndex → first.kind = .missingRequiredParam →
      later.kind ≠ .missingRequiredParam → Before first later
  | name {first later : Issue} {name other : String} :
      first.stepIndex = later.stepIndex →
      (first.kind = .missingRequiredParam ↔ later.kind = .missingRequiredParam) →
      first.parameter = some name → later.parameter = some other → name < other →
      Before first later

variable {registry : Registry} {options : ValidatorOptions} {step : Step} {provider name : String}
  {params : Params} {schema : ProviderSchema}

theorem Registry.get?_eq_some {kind : StepKind} :
    registry.get? provider kind = some schema ↔ registry.Governs provider kind schema := by
  rw [get?, Option.or_eq_some_iff]
  constructor
  · rintro (specific | ⟨none, general⟩)
    · exact .specific specific
    · exact .general none general
  · rintro (specific | ⟨none, general⟩)
    · exact .inl specific
    · exact .inr ⟨none, general⟩

theorem StepKind.mem_backed {kind : StepKind} :
    kind ∈ [.generate, .transform, .vision, .text] ↔ kind.isProviderBacked := by
  cases kind <;> decide

theorem Step.exists_provider (backed : step.kind.isProviderBacked) :
    ∃ provider params, step.provider? = some provider ∧ step.params? = some params := by
  cases step with
  | generate _ | transform _ | vision _ | text _ => exact ⟨_, _, rfl, rfl⟩
  | save _ | fanOut _ | collect _ | router _ => cases backed

theorem ProviderSchema.mem_required :
    name ∈ schema.required ↔ ∃ spec, schema.parameters.get? name = some spec ∧ spec.required := by
  simp only [required, KeyMap.names, KeyMap.filter, List.mem_map, List.mem_filter, Prod.exists,
    KeyMap.get?_eq_some_iff_mem]
  constructor
  · rintro ⟨_, spec, ⟨listed, needed⟩, rfl⟩
    exact ⟨spec, listed, needed⟩
  · rintro ⟨spec, listed, needed⟩
    exact ⟨name, spec, ⟨listed, needed⟩, rfl⟩

theorem Params.value?_eq_some {value : Json} :
    params.value? name = some value ↔ params.get? name = some value ∧ ¬value.isNull := by
  simp [value?, Option.filter_eq_some_iff]

namespace Validation

variable {index : Nat} {issue : Issue} {value : Json}

theorem missingIssue?_eq_some :
    missingIssue? options step params (issueOf index step provider) provider name = some issue ↔
      (¬options.isInternal name ∧ name ∉ supplied step ∧ params.value? name = none) ∧
        issueOf index step provider .error .missingRequiredParam
          s!"Missing required parameter '{name}' for '{provider}'" (some name) = issue := by
  rw [missingIssue?, Option.ite_none_left_eq_some, Option.some.injEq]
  simp [not_or, and_assoc]

theorem paramIssue?_eq_some :
    paramIssue? options schema (issueOf index step provider) provider name value = some issue ↔
      (¬options.isInternal name ∧ name ≠ "prePrompt" ∧ ¬value.isNull) ∧
        ((schema.parameters.get? name = none ∧
            issueOf index step provider
              (if options.strictUnknownParams then .error else .warning) .unknownParam
              s!"Parameter '{name}' is not declared by '{provider}'" (some name) = issue) ∨
          ∃ spec message, schema.parameters.get? name = some spec ∧
            valueMessage? name spec value = some message ∧
              issueOf index step provider .error .invalidParamType message (some name) =
                issue) := by
  rw [paramIssue?, Option.ite_none_left_eq_some]
  refine and_congr ?_ ?_
  · simp [engineParams, and_assoc]
  · cases schema.parameters.get? name <;> simp

theorem exists_valueMessage (name : String) {spec : ParamSpec} (refused : ¬spec.Admits value) :
    ∃ message, valueMessage? name spec value = some message := by
  rw [← Option.ne_none_iff_exists']
  intro silent
  exact refused (valueMessage?_eq_none.mp silent)

theorem stepIssues_of_unregistered (backed : step.kind.isProviderBacked)
    (named : step.provider? = some provider) (has : step.params? = some params)
    (unregistered : registry.get? provider step.kind = none) :
    stepIssues registry options index step =
      if options.requireSchemas then
        [issueOf index step provider .error .unknownProvider
          s!"No schema registered for {step.kind.name} provider '{provider}'" none]
      else [] := by
  simp only [stepIssues, backed, if_true, named, has, providerIssues, unregistered]
  rfl

/-- The issues of a step whose provider has a schema: one for each required name that is
missing, and one for each parameter that is refused. -/
theorem mem_stepIssues (governed : step.Governed registry provider schema params) :
    issue ∈ stepIssues registry options index step ↔
      (∃ name ∈ schema.required, missingIssue? options step params
        (issueOf index step provider) provider name = some issue) ∨
      ∃ name value, params.get? name = some value ∧ paramIssue? options schema
        (issueOf index step provider) provider name value = some issue := by
  obtain ⟨kind, named, governs, has⟩ := governed
  rw [stepIssues_of_schema (StepKind.mem_backed.mp kind) named has
    (Registry.get?_eq_some.mpr governs), List.mem_append, List.mem_filterMap, List.mem_filterMap]
  simp only [Prod.exists, KeyMap.get?_eq_some_iff_mem]

theorem governed_or_unregistered (registry : Registry) (backed : step.kind.isProviderBacked) :
    ∃ provider params, step.provider? = some provider ∧ step.params? = some params ∧
      ((∃ schema, step.Governed registry provider schema params) ∨
        registry.get? provider step.kind = none) := by
  obtain ⟨provider, params, named, has⟩ := Step.exists_provider backed
  refine ⟨provider, params, named, has, ?_⟩
  cases registered : registry.get? provider step.kind with
  | none => exact .inr rfl
  | some schema =>
      exact .inl ⟨schema, StepKind.mem_backed.mpr backed, named,
        Registry.get?_eq_some.mp registered, has⟩

theorem backed_of_mem (member : issue ∈ stepIssues registry options index step) :
    step.kind.isProviderBacked := by
  unfold stepIssues at member
  split at member
  · assumption
  · cases member

/-- An issue of a step tells of one of its defects. -/
theorem defect_of_mem (member : issue ∈ stepIssues registry options index step) :
    step.Defect registry options issue.severity issue.kind issue.parameter ∧
      issue.stepIndex = index ∧ issue.stepKind = step.kind ∧
        step.provider? = some issue.provider := by
  have backed := backed_of_mem member
  obtain ⟨provider, params, named, has, ⟨schema, governed⟩ | unregistered⟩ :=
    governed_or_unregistered registry backed
  · rcases (mem_stepIssues governed).mp member with
      ⟨name, required, found⟩ | ⟨name, value, bound, found⟩
    · obtain ⟨spec, declared, needed⟩ := ProviderSchema.mem_required.mp required
      obtain ⟨⟨checked, absent, missing⟩, rfl⟩ := missingIssue?_eq_some.mp found
      exact ⟨.missing governed declared needed checked absent missing, rfl, rfl, named⟩
    · obtain ⟨⟨checked, notPrePrompt, notNull⟩, found⟩ := paramIssue?_eq_some.mp found
      have given := Params.value?_eq_some.mpr ⟨bound, notNull⟩
      rcases found with ⟨undeclared, rfl⟩ | ⟨spec, message, declared, complains, rfl⟩
      · exact ⟨.unknown governed given checked notPrePrompt undeclared, rfl, rfl, named⟩
      · have refused : ¬spec.Admits value := by
          intro admits
          rw [valueMessage?_eq_none.mpr admits] at complains
          cases complains
        exact ⟨.refused governed given checked notPrePrompt declared refused, rfl, rfl, named⟩
  · rw [stepIssues_of_unregistered backed named has unregistered] at member
    split at member
    · rename_i required
      obtain rfl := List.mem_singleton.mp member
      refine ⟨.unknownProvider (StepKind.mem_backed.mpr backed) named ?_ required, rfl, rfl, named⟩
      intro schema governs
      rw [Registry.get?_eq_some.mpr governs] at unregistered
      cases unregistered
    · cases member

/-- Each defect of a step is reported. -/
theorem exists_issue {severity : Severity} {kind : IssueKind} {parameter : Option String}
    (defect : step.Defect registry options severity kind parameter) (index : Nat) :
    ∃ issue ∈ stepIssues registry options index step,
      issue.severity = severity ∧ issue.kind = kind ∧ issue.parameter = parameter := by
  cases defect with
  | @unknownProvider provider kind named ungoverned required =>
      have backed := StepKind.mem_backed.mp kind
      obtain ⟨_, params, -, has⟩ := Step.exists_provider backed
      have unregistered : registry.get? provider step.kind = none := by
        rw [Option.eq_none_iff_forall_ne_some]
        intro schema registered
        exact ungoverned schema (Registry.get?_eq_some.mp registered)
      rw [stepIssues_of_unregistered backed named has unregistered, if_pos required]
      exact ⟨_, List.mem_singleton_self _, rfl, rfl, rfl⟩
  | @missing provider name _ params _ governed declared needed checked absent missing =>
      have required := ProviderSchema.mem_required.mpr ⟨_, declared, needed⟩
      have found : missingIssue? options step params (issueOf index step provider) provider name =
          some _ :=
        missingIssue?_eq_some.mpr ⟨⟨checked, absent, missing⟩, rfl⟩
      exact ⟨_, (mem_stepIssues governed).mpr (.inl ⟨name, required, found⟩), rfl, rfl, rfl⟩
  | @unknown provider name schema _ value governed given checked notPrePrompt undeclared =>
      obtain ⟨bound, notNull⟩ := Params.value?_eq_some.mp given
      have found : paramIssue? options schema (issueOf index step provider) provider name value =
          some _ :=
        paramIssue?_eq_some.mpr ⟨⟨checked, notPrePrompt, notNull⟩, .inl ⟨undeclared, rfl⟩⟩
      exact ⟨_, (mem_stepIssues governed).mpr (.inr ⟨name, value, bound, found⟩), rfl, rfl, rfl⟩
  | @refused provider name schema _ value spec governed given checked notPrePrompt declared
      refused =>
      obtain ⟨bound, notNull⟩ := Params.value?_eq_some.mp given
      obtain ⟨message, complains⟩ := exists_valueMessage name refused
      have found : paramIssue? options schema (issueOf index step provider) provider name value =
          some _ :=
        paramIssue?_eq_some.mpr
          ⟨⟨checked, notPrePrompt, notNull⟩, .inr ⟨spec, message, declared, complains, rfl⟩⟩
      exact ⟨_, (mem_stepIssues governed).mpr (.inr ⟨name, value, bound, found⟩), rfl, rfl, rfl⟩

theorem paramIssue?_about
    (found : paramIssue? options schema (issueOf index step provider) provider name value =
      some issue) :
    issue.stepIndex = index ∧ issue.kind ≠ .missingRequiredParam ∧ issue.parameter = some name := by
  obtain ⟨-, ⟨-, rfl⟩ | ⟨spec, message, -, -, rfl⟩⟩ := paramIssue?_eq_some.mp found
  · exact ⟨rfl, nofun, rfl⟩
  · exact ⟨rfl, nofun, rfl⟩

theorem stepIssues_before (registry : Registry) (options : ValidatorOptions) (index : Nat)
    (step : Step) : (stepIssues registry options index step).Pairwise Issue.Before := by
  by_cases backed : step.kind.isProviderBacked
  · obtain ⟨provider, params, named, has, ⟨schema, governed⟩ | unregistered⟩ :=
      governed_or_unregistered registry backed
    · rw [stepIssues_of_schema backed named has (Registry.get?_eq_some.mpr governed.governs),
        List.pairwise_append]
      refine ⟨?_, ?_, ?_⟩
      · refine (schema.parameters.filter fun _ spec => spec.required).ascending.filterMap _ ?_
        intro name other below first found later otherFound
        obtain ⟨-, rfl⟩ := missingIssue?_eq_some.mp found
        obtain ⟨-, rfl⟩ := missingIssue?_eq_some.mp otherFound
        exact .name rfl Iff.rfl rfl rfl below
      · refine (List.pairwise_map.mp params.ascending).filterMap _ ?_
        intro entry other below first found later otherFound
        obtain ⟨place, given, about⟩ := paramIssue?_about found
        obtain ⟨otherPlace, otherGiven, otherAbout⟩ := paramIssue?_about otherFound
        exact .name (place.trans otherPlace.symm) (iff_of_false given otherGiven) about otherAbout
          below
      · intro first firstMember later laterMember
        obtain ⟨name, -, found⟩ := List.mem_filterMap.mp firstMember
        obtain ⟨entry, -, otherFound⟩ := List.mem_filterMap.mp laterMember
        obtain ⟨-, rfl⟩ := missingIssue?_eq_some.mp found
        obtain ⟨place, given, -⟩ := paramIssue?_about otherFound
        exact .missing place.symm rfl given
    · rw [stepIssues_of_unregistered backed named has unregistered]
      split
      · exact List.pairwise_singleton _ _
      · exact .nil
  · rw [stepIssues, if_neg backed]
    exact .nil

variable {steps : List Step}

theorem mem_issuesFrom {first : Nat} :
    issue ∈ issuesFrom registry options first steps ↔
      ∃ offset step, steps[offset]? = some step ∧
        issue ∈ stepIssues registry options (first + offset) step := by
  constructor
  · intro member
    induction steps generalizing first with
    | nil => cases member
    | cons step steps induction =>
        rcases List.mem_append.mp member with here | later
        · exact ⟨0, step, rfl, here⟩
        · obtain ⟨offset, other, found, there⟩ := induction later
          refine ⟨offset + 1, other, found, ?_⟩
          rw [Nat.add_comm offset, ← Nat.add_assoc]
          exact there
  · intro member
    obtain ⟨offset, step, found, here⟩ := member
    exact stepIssues_subset first found here

theorem issuesFrom_before (registry : Registry) (options : ValidatorOptions) (first : Nat)
    (steps : List Step) : (issuesFrom registry options first steps).Pairwise Issue.Before := by
  induction steps generalizing first with
  | nil => exact .nil
  | cons step steps induction =>
      refine List.pairwise_append.mpr
        ⟨stepIssues_before registry options first step, induction (first + 1), ?_⟩
      intro issue here other later
      obtain ⟨offset, otherStep, -, there⟩ := mem_issuesFrom.mp later
      have place := (defect_of_mem here).2.1
      have otherPlace := (defect_of_mem there).2.1
      exact .step (by omega)

end Validation

namespace Step

variable {severity : Severity} {kind : IssueKind} {parameter : Option String}

theorem Governed.unique {other : ProviderSchema} {otherProvider : String} {otherParams : Params}
    (governed : step.Governed registry provider schema params)
    (again : step.Governed registry otherProvider other otherParams) :
    schema = other ∧ params = otherParams := by
  obtain rfl := Option.some.inj (governed.named.symm.trans again.named)
  have registered := Registry.get?_eq_some.mpr governed.governs
  rw [Registry.get?_eq_some.mpr again.governs] at registered
  exact ⟨(Option.some.inj registered).symm, Option.some.inj (governed.has.symm.trans again.has)⟩

/-- Where the provider has no schema, nothing else is wrong. -/
theorem Defect.of_unknownProvider {severity other : Severity} {kind : IssueKind}
    {parameter otherParameter : Option String}
    (unknown : step.Defect registry options severity .unknownProvider parameter)
    (defect : step.Defect registry options other kind otherParameter) :
    parameter = none ∧ otherParameter = none := by
  cases unknown with
  | unknownProvider _ named ungoverned =>
      cases defect with
      | unknownProvider => exact ⟨rfl, rfl⟩
      | missing governed | unknown governed | refused governed =>
          obtain rfl := Option.some.inj (named.symm.trans governed.named)
          exact absurd governed.governs (ungoverned _)

theorem Defect.ne_of_missing {severity other : Severity} {parameter otherParameter : Option String}
    (missing : step.Defect registry options severity .missingRequiredParam parameter)
    (defect : step.Defect registry options other kind otherParameter)
    (given : kind ≠ .missingRequiredParam) : parameter ≠ otherParameter := by
  cases missing with
  | missing governed _ _ _ _ absent =>
      cases defect with
      | unknownProvider => exact nofun
      | missing => exact absurd rfl given
      | unknown again bound | refused again bound =>
          rintro ⟨⟩
          rw [(governed.unique again).2, bound] at absent
          cases absent

/-- Rounding makes up no defect: a number that has the declared type, and is refused all the
same, exceeds a bound exactly. -/
theorem Defect.exceeds {spec : ParamSpec} {number : Number}
    (defect : step.Defect registry options severity .invalidParamType (some name))
    (governed : step.Governed registry provider schema params)
    (declared : schema.parameters.get? name = some spec)
    (given : params.value? name = some (.number number))
    (held : (Json.number number).Canonical) (accepts : spec.type.accepts (.number number)) :
    ¬spec.Bounds number.exact := by
  cases defect with
  | refused again bound _ _ known refused =>
      obtain ⟨rfl, rfl⟩ := governed.unique again
      obtain rfl := Option.some.inj (given.symm.trans bound)
      obtain rfl := Option.some.inj (declared.symm.trans known)
      intro within
      exact refused (ParamSpec.admits_of_exact held accepts within)

end Step

namespace Pipeline

variable {pipeline : Pipeline} {issue : Issue}

theorem mem_validate :
    issue ∈ pipeline.validate registry options ↔
      ∃ index step, pipeline.steps[index]? = some step ∧
        issue ∈ Validation.stepIssues registry options index step := by
  rw [validate, Validation.mem_issuesFrom]
  simp only [Nat.zero_add]

theorem defect_of_mem (member : issue ∈ pipeline.validate registry options) :
    ∃ step, pipeline.steps[issue.stepIndex]? = some step ∧
      step.Defect registry options issue.severity issue.kind issue.parameter ∧
        issue.stepKind = step.kind ∧ step.provider? = some issue.provider := by
  obtain ⟨index, step, found, here⟩ := mem_validate.mp member
  obtain ⟨defect, rfl, kind, provider⟩ := Validation.defect_of_mem here
  exact ⟨step, found, defect, kind, provider⟩

theorem validate_before (pipeline : Pipeline) (registry : Registry) (options : ValidatorOptions) :
    (pipeline.validate registry options).Pairwise Issue.Before :=
  Validation.issuesFrom_before registry options 0 pipeline.steps

theorem validate_distinct (pipeline : Pipeline) (registry : Registry)
    (options : ValidatorOptions) :
    ((pipeline.validate registry options).map fun issue =>
      (issue.stepIndex, issue.parameter)).Nodup := by
  refine List.pairwise_map.mpr ((pipeline.validate_before registry options).imp_of_mem ?_)
  intro first later member laterMember before same
  obtain ⟨place, parameter⟩ := Prod.mk.inj same
  cases before with
  | step below => exact Nat.ne_of_lt below place
  | missing _ missing given =>
      obtain ⟨step, found, defect, -⟩ := defect_of_mem member
      obtain ⟨other, otherFound, otherDefect, -⟩ := defect_of_mem laterMember
      rw [place, otherFound] at found
      obtain rfl := Option.some.inj found
      rw [missing] at defect
      exact defect.ne_of_missing otherDefect given parameter
  | name _ _ about otherAbout below =>
      rw [about, otherAbout] at parameter
      exact String.ne_of_lt below (Option.some.inj parameter)

/-- Validation reports each defect of each step and nothing else, and it reports no
parameter of a step twice.  A provider without schema is all that is reported of its step. -/
theorem validate_reports (pipeline : Pipeline) (registry : Registry)
    (options : ValidatorOptions) :
    (∀ index severity kind parameter,
      (∃ issue ∈ pipeline.validate registry options, issue.stepIndex = index ∧
        issue.severity = severity ∧ issue.kind = kind ∧ issue.parameter = parameter) ↔
      ∃ step, pipeline.steps[index]? = some step ∧
        step.Defect registry options severity kind parameter) ∧
    (∀ issue ∈ pipeline.validate registry options,
      ∃ step, pipeline.steps[issue.stepIndex]? = some step ∧ issue.stepKind = step.kind ∧
        step.provider? = some issue.provider) ∧
    (∀ issue ∈ pipeline.validate registry options, issue.kind = .unknownProvider →
      ∀ other ∈ pipeline.validate registry options, other.stepIndex = issue.stepIndex →
        other = issue) ∧
    ((pipeline.validate registry options).map fun issue =>
      (issue.stepIndex, issue.parameter)).Nodup ∧
    (pipeline.validate registry options).Pairwise Issue.Before := by
  refine ⟨?_, ?_, ?_, pipeline.validate_distinct registry options,
    pipeline.validate_before registry options⟩
  · intro index severity kind parameter
    constructor
    · rintro ⟨issue, member, rfl, rfl, rfl, rfl⟩
      obtain ⟨step, found, defect, -⟩ := defect_of_mem member
      exact ⟨step, found, defect⟩
    · rintro ⟨step, found, defect⟩
      obtain ⟨issue, here, facts⟩ := Validation.exists_issue defect index
      exact ⟨issue, mem_validate.mpr ⟨index, step, found, here⟩,
        (Validation.defect_of_mem here).2.1, facts⟩
  · intro issue member
    obtain ⟨step, found, -, kind, provider⟩ := defect_of_mem member
    exact ⟨step, found, kind, provider⟩
  · intro issue member unknown other otherMember place
    obtain ⟨step, found, defect, -⟩ := defect_of_mem member
    obtain ⟨otherStep, otherFound, otherDefect, -⟩ := defect_of_mem otherMember
    rw [place, found] at otherFound
    obtain rfl := Option.some.inj otherFound
    rw [unknown] at defect
    obtain ⟨none, otherNone⟩ := defect.of_unknownProvider otherDefect
    apply List.inj_on_of_nodup_map (pipeline.validate_distinct registry options) otherMember member
    rw [place, none, otherNone]

/-- The seed of `seeded` exceeds its bound exactly, and yet nothing is reported. -/
theorem seeded_not_reported :
    ∃ step schema spec bound,
      seeded.steps[0]? = some step ∧
      step.Governed Registry.bounded "paint" schema (.single "seed" (.int (2 ^ 53 + 1))) ∧
      ¬({} : ValidatorOptions).isInternal "seed" ∧
      schema.parameters.get? "seed" = some spec ∧ spec.type.accepts (.int (2 ^ 53 + 1)) ∧
      spec.maximum = some bound ∧ bound.exact < (Number.int (2 ^ 53 + 1)).exact ∧
      seeded.validate Registry.bounded = [] := by
  obtain ⟨schema, spec, bound, registered, declared, accepts, maximum, exceeded⟩ :=
    Registry.bounded_below_seed
  refine ⟨_, schema, spec, bound, rfl, ?_, by decide, declared, accepts, maximum, exceeded,
    by decide +kernel⟩
  exact ⟨by decide, rfl, Registry.get?_eq_some.mp registered, rfl⟩

/-- A prompt that is missing since it is `null`, two parameters that are refused, and a
provider that nobody knows. -/
def draft : Pipeline where
  name := "draft"
  steps := [
    .generate {
      generator := "flux"
      params := .ofList [("width", .nat 7), ("prompt", .null), ("__note", .nat 1), ("hue", .nat 3)]
      out := "sea" },
    .text { provider := "poet", params := ∅, out := "verse" }]

example : (draft.validate .sample .strict).map (fun issue =>
      (issue.stepIndex, issue.kind, issue.parameter)) =
    [(0, .missingRequiredParam, some "prompt"), (0, .unknownParam, some "hue"),
      (0, .invalidParamType, some "width"), (1, .unknownProvider, none)] := by
  decide +kernel

end Pipeline

end Workflow
