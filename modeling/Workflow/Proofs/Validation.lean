import Workflow.Proofs.Doubles
import Workflow.Proofs.Requests
import Workflow.Run.Script
import Workflow.Schema.Sample
import Workflow.Validation.Basic

/-!
# What validation vouches for

Validation looks at the parameters of a step, and the provider gets those of the
step's request.  A step that validation accepts asks only for what the provider's
schema admits, as far as the parameters are declared and reach the provider as they
are.
-/

namespace Workflow

namespace Number

/-- What bounds are compared with, in units of the resolution of doubles: the exact
value, where a whole number of more than 53 bits counts as its nearest double. -/
def measure? : Number → Option Int
  | .int value =>
      if value.natAbs < 2 ^ 53 then some (value * Double.resolution)
      else (Double.ofInt? value).map Double.exact
  | .double value => some value.exact

theorem measure?_eq (number : Number) : number.measure? = number.toDouble?.map Double.exact := by
  cases number with
  | double value => rfl
  | int value =>
      by_cases small : value.natAbs < 2 ^ 53
      · obtain ⟨nearest, found, exact⟩ := Double.ofInt?_exact small
        rw [measure?, if_pos small, toDouble?, found, Option.map_some, exact]
      · rw [measure?, if_neg small, toDouble?]

/-- The exact value in units of the resolution of doubles. -/
def exact : Number → Int
  | .int value => value * Double.resolution
  | .double value => value.exact

/-- A number of a document has a measure, and no double lies between it and the exact value. -/
theorem exists_measure {number : Number} (held : (Json.number number).Canonical) :
    ∃ measure, number.measure? = some measure ∧ ∀ bound : Double,
      (bound.exact ≤ number.exact → bound.exact ≤ measure) ∧
        (number.exact ≤ bound.exact → measure ≤ bound.exact) := by
  rw [measure?_eq]
  cases number with
  | double value => exact ⟨value.exact, rfl, fun _ => ⟨id, id⟩⟩
  | int value =>
      obtain ⟨above, below⟩ := held
      have fits : value.natAbs < Text.naturalLimit := by
        change value < (2 ^ 64 : Nat) at below
        change value.natAbs < 2 ^ 64
        omega
      obtain ⟨nearest, found⟩ := Option.isSome_iff_exists.mp (Double.ofInt?_isSome fits)
      refine ⟨nearest.exact, ?_, Double.ofInt?_between found⟩
      rw [toDouble?, found, Option.map_some]

end Number

namespace ParamSpec

variable {spec : ParamSpec}

def Bounds (spec : ParamSpec) (measure : Int) : Prop :=
  (∀ bound ∈ spec.minimum, bound.exact ≤ measure) ∧ ∀ bound ∈ spec.maximum, measure ≤ bound.exact

/-- A value has the declared type, is one of the allowed texts if it is a text, and
lies between the bounds if it is a number, where a whole number of magnitude `2 ^ 53` or
more counts as the double nearest to it. -/
structure Admits (spec : ParamSpec) (value : Json) : Prop where
  type : spec.type.accepts value
  allowed : ∀ choices ∈ spec.allowed, ∀ text, value = .string text → text ∈ choices
  bounded : ∀ number, value = .number number → ∀ measure ∈ number.measure?, spec.Bounds measure

/-- A number of a document that is admitted has a measure, which lies between the bounds. -/
theorem admits_number {number : Number} (held : (Json.number number).Canonical) :
    spec.Admits (.number number) ↔
      spec.type.accepts (.number number) ∧
        ∃ measure, number.measure? = some measure ∧ spec.Bounds measure := by
  obtain ⟨measure, measured, -⟩ := number.exists_measure held
  constructor
  · intro admits
    exact ⟨admits.type, measure, measured, admits.bounded number rfl measure measured⟩
  · intro parts
    obtain ⟨accepts, other, again, within⟩ := parts
    refine ⟨accepts, nofun, ?_⟩
    rintro _ ⟨⟩ third thirdMeasured
    obtain rfl := Option.some.inj (again.symm.trans thirdMeasured)
    exact within

/-- Rounding takes no number beyond a bound that it does not exceed. -/
theorem admits_of_exact {number : Number} (held : (Json.number number).Canonical)
    (accepts : spec.type.accepts (.number number)) (within : spec.Bounds number.exact) :
    spec.Admits (.number number) := by
  obtain ⟨measure, measured, beside⟩ := number.exists_measure held
  refine (admits_number held).mpr ⟨accepts, measure, measured, ?_, ?_⟩
  · intro bound least
    exact (beside bound).1 (within.1 bound least)
  · intro bound greatest
    exact (beside bound).2 (within.2 bound greatest)

end ParamSpec

namespace Validation

variable {name : String} {spec : ParamSpec} {value : Json}

theorem allowedMessage?_eq_none :
    allowedMessage? name spec value = none ↔
      ∀ choices ∈ spec.allowed, ∀ text, value = .string text → text ∈ choices := by
  unfold allowedMessage?
  split
  · rename_i choices text declared
    simp [declared]
  · rename_i neither
    simp only [Option.mem_def, true_iff]
    intro choices declared text isText
    exact absurd isText (neither choices text declared)

theorem boundMessage?_eq_none {value : Double} :
    boundMessage? name spec value = none ↔ spec.Bounds value.exact := by
  have below : ∀ a b : Double, ¬a.less b ↔ b.exact ≤ a.exact := by
    intro a b
    rw [Double.less_iff, Int.not_lt]
  have least : (spec.minimum.filter fun bound => value.less bound) = none ↔
      ∀ bound ∈ spec.minimum, bound.exact ≤ value.exact := by
    simp only [Option.filter_eq_none_iff, below, Option.mem_def]
  have greatest : (spec.maximum.filter fun bound => bound.less value) = none ↔
      ∀ bound ∈ spec.maximum, value.exact ≤ bound.exact := by
    simp only [Option.filter_eq_none_iff, below, Option.mem_def]
  unfold boundMessage? ParamSpec.Bounds
  rw [← least, ← greatest]
  cases spec.minimum.filter fun bound => value.less bound <;>
    cases spec.maximum.filter fun bound => bound.less value <;> simp

/-- A message is given for just those values that the declaration does not admit. -/
theorem valueMessage?_eq_none : valueMessage? name spec value = none ↔ spec.Admits value := by
  have bounded : spec.type.accepts value →
      ((if spec.type.isNumeric then
          (value.number?.bind Number.toDouble?).bind (boundMessage? name spec)
        else none) = none ↔
        ∀ number, value = .number number → ∀ measure ∈ number.measure?, spec.Bounds measure) := by
    intro accepts
    cases value with
    | number number =>
        have numeric : spec.type.isNumeric := by
          cases type : spec.type <;> simp_all [ParamType.accepts, ParamType.isNumeric]
        simp only [numeric, if_true, Json.number?, Option.bind_some, Json.number.injEq,
          forall_eq', Number.measure?_eq]
        cases number.toDouble? with
        | none => simp
        | some double => simpa using boundMessage?_eq_none
    | null | bool _ | string _ | array _ | object _ => simp [Json.number?]
  unfold valueMessage?
  by_cases accepts : spec.type.accepts value
  · rw [if_pos accepts]
    cases message : allowedMessage? name spec value with
    | some text =>
        have refused : ¬spec.Admits value := by
          intro admits
          rw [allowedMessage?_eq_none.mpr admits.allowed] at message
          cases message
        simp [refused]
    | none =>
        have allowed := allowedMessage?_eq_none.mp message
        constructor
        · intro silent
          exact ⟨accepts, allowed, (bounded accepts).mp silent⟩
        · intro admits
          exact (bounded accepts).mpr admits.bounded
  · rw [if_neg accepts]
    constructor
    · intro impossible
      cases impossible
    · intro admits
      exact absurd admits.type accepts

def issueOf (index : Nat) (step : Step) (provider : String) (severity : Severity)
    (kind : IssueKind) (message : String) (parameter : Option String) : Issue :=
  { severity, kind, message, stepIndex := index, stepKind := step.kind, provider, parameter }

variable {registry : Registry} {options : ValidatorOptions} {index : Nat} {step : Step}
  {provider : String} {params : Params} {schema : ProviderSchema}

theorem stepIssues_of_schema (backed : step.kind.isProviderBacked)
    (named : step.provider? = some provider) (has : step.params? = some params)
    (declared : registry.get? provider step.kind = some schema) :
    stepIssues registry options index step =
      schema.required.filterMap
          (missingIssue? options step params (issueOf index step provider) provider) ++
        params.entries.filterMap fun entry =>
          paramIssue? options schema (issueOf index step provider) provider entry.1 entry.2 := by
  simp only [stepIssues, backed, if_true, named, has, providerIssues, declared]
  rfl

theorem stepIssues_subset (first : Nat) {steps : List Step} (found : steps[index]? = some step) :
    stepIssues registry options (first + index) step ⊆ issuesFrom registry options first steps := by
  induction steps generalizing first index with
  | nil => cases found
  | cons head steps induction =>
      cases index with
      | zero =>
          obtain rfl := Option.some.inj found
          exact List.subset_append_left _ _
      | succ index =>
          have later := induction (first + 1) found
          rw [Nat.add_assoc, Nat.add_comm 1] at later
          exact List.Subset.trans later (List.subset_append_right _ _)

theorem exists_missingIssue (index : Nat) (provider : String) (checked : ¬options.isInternal name)
    (absent : name ∉ supplied step) (missing : ¬(params.value? name).isSome) :
    ∃ issue, missingIssue? options step params (issueOf index step provider) provider name =
      some issue ∧ issue.stepIndex = index ∧ issue.isError := by
  refine ⟨_, if_neg ?_, rfl, rfl⟩
  simp [checked, absent, missing]

/-- A value that its declaration does not admit is an error, and under strict options
so is a parameter without a declaration. -/
theorem exists_paramIssue (index : Nat) (step : Step) (provider : String)
    (checked : ¬options.isInternal name ∧ name ≠ "prePrompt") (notNull : ¬value.isNull)
    (refused : (∃ spec, schema.parameters.get? name = some spec ∧ ¬spec.Admits value) ∨
      options.strictUnknownParams ∧ schema.parameters.get? name = none) :
    ∃ issue, paramIssue? options schema (issueOf index step provider) provider name value =
      some issue ∧ issue.stepIndex = index ∧ issue.isError := by
  have examined : ¬(options.isInternal name || engineParams.contains name || value.isNull) := by
    simp [checked, notNull, engineParams]
  unfold paramIssue?
  rw [if_neg examined]
  rcases refused with ⟨spec, declared, refused⟩ | ⟨strict, undeclared⟩
  · rw [declared]
    have notSilent : valueMessage? name spec value ≠ none := by
      intro silent
      exact refused (valueMessage?_eq_none.mp silent)
    obtain ⟨message, complains⟩ := Option.ne_none_iff_exists'.mp notSilent
    exact ⟨_, congrArg (Option.map _) complains, rfl, rfl⟩
  · rw [undeclared, if_pos strict]
    exact ⟨_, rfl, rfl, rfl⟩

/-- What a schema admits of the parameters of a step, as far as they are looked at. -/
structure Vouched (options : ValidatorOptions) (schema : ProviderSchema) (step : Step)
    (params : Params) : Prop where
  required : ∀ name spec, schema.parameters.get? name = some spec → spec.required →
    ¬options.isInternal name → name ∉ supplied step → (params.value? name).isSome
  admitted : ∀ name spec value, schema.parameters.get? name = some spec →
    params.value? name = some value → ¬options.isInternal name ∧ name ≠ "prePrompt" →
      spec.Admits value
  declared : options.strictUnknownParams → ∀ name, (params.value? name).isSome →
    ¬options.isInternal name ∧ name ≠ "prePrompt" → (schema.parameters.get? name).isSome

theorem vouched_of_noErrors (backed : step.kind.isProviderBacked)
    (named : step.provider? = some provider) (has : step.params? = some params)
    (registered : registry.get? provider step.kind = some schema)
    (noErrors : ∀ issue ∈ stepIssues registry options index step,
      issue.stepIndex = index → ¬issue.isError) :
    Vouched options schema step params := by
  rw [stepIssues_of_schema backed named has registered] at noErrors
  have noParamIssue : ∀ name value, params.value? name = some value →
      ¬options.isInternal name ∧ name ≠ "prePrompt" →
        ¬((∃ spec, schema.parameters.get? name = some spec ∧ ¬spec.Admits value) ∨
          options.strictUnknownParams ∧ schema.parameters.get? name = none) := by
    intro name value held checked refused
    obtain ⟨bound, notNull⟩ := Option.filter_eq_some_iff.mp held
    obtain ⟨issue, found, place, isError⟩ :=
      exists_paramIssue index step provider checked (by simpa using notNull) refused
    apply noErrors issue _ place isError
    apply List.mem_append_right
    exact List.mem_filterMap.mpr ⟨(name, value), KeyMap.get?_eq_some_iff_mem.mp bound, found⟩
  constructor
  · intro name spec declared required checked absent
    by_contra missing
    obtain ⟨issue, found, place, isError⟩ :=
      exists_missingIssue index provider checked absent missing
    have listed : (name, spec) ∈ schema.parameters.entries.filter fun entry => entry.2.required :=
      List.mem_filter.mpr ⟨KeyMap.get?_eq_some_iff_mem.mp declared, required⟩
    apply noErrors issue _ place isError
    apply List.mem_append_left
    exact List.mem_filterMap.mpr ⟨name, List.mem_map_of_mem listed, found⟩
  · intro name spec value declared held checked
    by_contra refused
    exact noParamIssue name value held checked (Or.inl ⟨spec, declared, refused⟩)
  · intro strict name held checked
    obtain ⟨value, held⟩ := Option.isSome_iff_exists.mp held
    by_contra undeclared
    exact noParamIssue name value held checked
      (Or.inr ⟨strict, Option.not_isSome_iff_eq_none.mp undeclared⟩)

end Validation

/-- Whether a parameter is looked at and reaches the provider as it is. -/
def ValidatorOptions.Covers (options : ValidatorOptions) (name : String) : Prop :=
  name ∉ ["prompt", "prePrompt", "overlays"] ∧
    ¬Text.startsWith Resolve.internalMarker name ∧ ¬options.isInternal name

/-- What a schema admits of the parameters of a request, whose step is supplied with
some of them otherwise. -/
structure Request.Meets (request : Request) (schema : ProviderSchema)
    (options : ValidatorOptions) (supplied : List String) : Prop where
  required : ∀ name spec, options.Covers name → schema.parameters.get? name = some spec →
    spec.required → name ∉ supplied → (request.params.value? name).isSome
  admitted : ∀ name spec value, options.Covers name → schema.parameters.get? name = some spec →
    request.params.value? name = some value → spec.Admits value
  declared : options.strictUnknownParams → ∀ name, name ≠ "prompt" →
    (request.params.value? name).isSome →
      (schema.parameters.get? name).isSome ∨ options.isInternal name

theorem Validation.Vouched.meets {options : ValidatorOptions} {schema : ProviderSchema}
    {step : Step} {params : Params} {index : Nat} {request : Request}
    (vouched : Vouched options schema step params) (backed : step.kind.isProviderBacked)
    (has : step.params? = some params) (asks : step.Asks index request) :
    request.Meets schema options (supplied step) := by
  have covered : ∀ name, options.Covers name →
      request.params.value? name = params.value? name ∧ ¬options.isInternal name ∧
        name ≠ "prePrompt" := by
    intro name covers
    obtain ⟨other, unmarked, checked⟩ := covers
    simp only [List.mem_cons, List.not_mem_nil, or_false, not_or] at other
    have passed : ¬step.withholds name := by
      rw [Step.withholds_iff]
      simp [other, unmarked]
    rw [asks.value?_eq has backed other.1, if_neg passed]
    exact ⟨rfl, checked, other.2.1⟩
  constructor
  · intro name spec covers declared required absent
    obtain ⟨same, checked, -⟩ := covered name covers
    rw [same]
    exact vouched.required name spec declared required checked absent
  · intro name spec value covers declared held
    obtain ⟨same, checked⟩ := covered name covers
    rw [same] at held
    exact vouched.admitted name spec value declared held checked
  · intro strict name notPrompt held
    by_cases checked : options.isInternal name
    · exact Or.inr checked
    · left
      rw [asks.value?_eq has backed notPrompt] at held
      split at held
      · cases held
      · rename_i passed
        rw [Step.withholds_iff] at passed
        have notPrePrompt : name ≠ "prePrompt" := fun same => passed (Or.inr (Or.inl same))
        exact vouched.declared strict name held ⟨checked, notPrePrompt⟩

/-- If validation reports no error at a step, then whatever the step asks in a run meets
the schema of its provider. -/
theorem Pipeline.request_meets_schema (pipeline : Pipeline) (registry : Registry)
    (options : ValidatorOptions) {index : Nat} {step : Step} {provider : String}
    {schema : ProviderSchema} (found : pipeline.steps[index]? = some step)
    (backed : step.kind.isProviderBacked) (named : step.provider? = some provider)
    (registered : registry.get? provider step.kind = some schema)
    (noErrors : ∀ issue ∈ pipeline.validate registry options,
      issue.stepIndex = index → ¬issue.isError)
    (config : RunConfig) (host : Host σ) (initial : KeyMap Value) (state : σ) {request : Request}
    (made : request ∈ (pipeline.execute config host initial state).2.requests)
    (place : request.stepIndex = index) :
    request.Meets schema options (Validation.supplied step) := by
  have has : ∃ params, step.params? = some params := by
    cases step with
    | generate s | transform s | vision s | text s => exact ⟨s.params, rfl⟩
    | save _ | fanOut _ | collect _ | router _ => cases backed
  obtain ⟨params, has⟩ := has
  obtain ⟨asker, before, asking, -, acts⟩ := Pipeline.mem_requests_of_execute made
  rw [place, found] at asking
  obtain rfl := Option.some.inj asking
  have among : Validation.stepIssues registry options (0 + index) step ⊆
      pipeline.validate registry options :=
    Validation.stepIssues_subset 0 found
  rw [Nat.zero_add] at among
  have vouched : Validation.Vouched options schema step params := by
    apply Validation.vouched_of_noErrors backed named has registered
    intro issue member
    exact noErrors issue (among member)
  exact vouched.meets backed has (Run.action_asks acts)

/-- A pipeline of one step, whose prompt is read from a variable. -/
def Pipeline.commission : Pipeline where
  name := "commission"
  steps := [.generate {
    generator := "flux"
    params := .ofList [("width", .int 512), ("seed", .null), ("__draft", .bool true),
      ("prePrompt", .string "In oil:")]
    deferred := { prompt := some { name := "idea" } }
    out := "sea" }]

theorem commission_meets_schema :
    ∃ schema request, Registry.sample.get? "flux" .generate = some schema ∧
      request ∈ (Pipeline.commission.execute {} (Script.host ({} : Script).reply ∅)
        (.single "idea" (.data "a calm sea")) {}).2.requests ∧
        request.params = .ofList [("width", .int 512), ("seed", .null),
          ("prompt", .string "In oil:\n\na calm sea")] ∧
          request.Meets schema .strict ["prompt"] := by
  let host := Script.host ({} : Script).reply ∅
  have known : (Registry.sample.get? "flux" .generate).isSome := by decide +kernel
  obtain ⟨schema, registered⟩ := Option.isSome_iff_exists.mp known
  have asks : (Pipeline.commission.execute {} host (.single "idea" (.data "a calm sea"))
      {}).2.requests.any fun request => request.stepIndex = 0 ∧
        request.params = .ofList [("width", .int 512), ("seed", .null),
          ("prompt", .string "In oil:\n\na calm sea")] := by
    decide +kernel
  have noErrors : ∀ issue ∈ Pipeline.commission.validate Registry.sample .strict,
      issue.stepIndex = 0 → ¬issue.isError := by
    decide +kernel
  obtain ⟨request, made, facts⟩ := List.any_eq_true.mp asks
  obtain ⟨place, params⟩ := of_decide_eq_true facts
  exact ⟨schema, request, registered, made, params,
    Pipeline.commission.request_meets_schema Registry.sample .strict rfl rfl rfl registered noErrors
      {} host (.single "idea" (.data "a calm sea")) {} made place⟩

/-- A pipeline of one step, whose seed is the least whole number that no double is. -/
def Pipeline.seeded : Pipeline where
  name := "painting"
  steps := [.generate {
    generator := "paint"
    params := .single "seed" (.int (2 ^ 53 + 1))
    out := "sea" }]

/-- A registry whose only provider admits seeds up to the whole number before that. -/
def Registry.bounded : Registry :=
  .ofSchemas [({ name := "paint" } : ProviderSchema)
    |>.declare "seed" { type := .integer, maximum := Double.ofInt? (2 ^ 53) }]

theorem Registry.bounded_below_seed :
    ∃ schema spec bound, Registry.bounded.get? "paint" .generate = some schema ∧
      schema.parameters.get? "seed" = some spec ∧ spec.type.accepts (.int (2 ^ 53 + 1)) ∧
        spec.maximum = some bound ∧ bound.exact < (Number.int (2 ^ 53 + 1)).exact := by
  have governing : (Registry.bounded.get? "paint" .generate).any fun schema =>
      (schema.parameters.get? "seed").any fun spec =>
        spec.type.accepts (.int (2 ^ 53 + 1)) && spec.maximum.any fun bound =>
          decide (bound.exact < (Number.int (2 ^ 53 + 1)).exact) := by
    decide +kernel
  obtain ⟨schema, registered, declares⟩ := (Option.any_eq_true _ _).mp governing
  obtain ⟨spec, declared, admits⟩ := (Option.any_eq_true _ _).mp declares
  obtain ⟨accepts, bounds⟩ := Bool.and_eq_true_iff.mp admits
  obtain ⟨bound, maximum, exceeded⟩ := (Option.any_eq_true _ _).mp bounds
  exact ⟨schema, spec, bound, registered, declared, accepts, maximum, of_decide_eq_true exceeded⟩

/-- Compared as doubles, the seed is not beyond its bound, and so the provider gets it. -/
theorem seeded_beyond_bound :
    Pipeline.seeded.validate Registry.bounded = [] ∧
      ∃ request ∈ (Pipeline.seeded.execute {} (Script.host ({} : Script).reply ∅) ∅ {}).2.requests,
        ∃ schema spec bound, Registry.bounded.get? request.provider request.kind = some schema ∧
          schema.parameters.get? "seed" = some spec ∧ spec.maximum = some bound ∧
            request.params.value? "seed" = some (.int (2 ^ 53 + 1)) ∧
              bound.exact < (2 ^ 53 + 1) * Double.resolution := by
  let host := Script.host ({} : Script).reply ∅
  obtain ⟨schema, spec, bound, registered, declared, -, bounded, below⟩ :=
    Registry.bounded_below_seed
  have asks : (Pipeline.seeded.execute {} host ∅ {}).2.requests.any fun request =>
      request.provider = "paint" ∧ request.kind = .generate ∧
        request.params.value? "seed" = some (.int (2 ^ 53 + 1)) := by
    decide +kernel
  obtain ⟨request, made, facts⟩ := List.any_eq_true.mp asks
  obtain ⟨provider, kind, seed⟩ := of_decide_eq_true facts
  refine ⟨by decide +kernel, request, made, schema, spec, bound, ?_, declared, bounded, seed,
    below⟩
  rw [provider, kind]
  exact registered

end Workflow
