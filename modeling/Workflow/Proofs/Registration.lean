import Mathlib.Data.Finset.Card
import Mathlib.Data.List.Find
import Workflow.Proofs.Lookup
import Workflow.Schema.Document
import Workflow.Validation.Basic

/-!
# What a registry finds after its changes

Schemas are registered one by one, or all at once from a document that takes the place of
what was there; and a registry can be emptied.  A registry keeps one schema for each name
and kind, the latest; what it finds can be told from the list of all registrations since it
was last empty.  So only the order among the registrations for one name and kind matters,
to look-ups and to validation.
-/

namespace Workflow

/-- What a schema is registered for: a name, with a kind of step or without. -/
def ProviderSchema.key (schema : ProviderSchema) : String × Option StepKind :=
  (schema.name, schema.kind)

namespace Registry

/-- A change of a registry. -/
inductive Change where
  | register (schema : ProviderSchema)
  /-- A registry is read from a text and takes the place of the old one, which stays if the
  text cannot be read. -/
  | load (text : String)
  | clear

/-- The schemas that a text lists. -/
def schemasOf? (text : String) : Option (List ProviderSchema) :=
  (Document.ofText? text).bind (Document.list? ProviderSchema.ofDocument?)

def apply (registry : Registry) : Change → Registry
  | .register schema => registry.register schema
  | .load text => (ofText? text).getD registry
  | .clear => {}

/-- A registry that begins empty, after changes. -/
def after (changes : List Change) : Registry :=
  changes.foldl apply {}

/-- The registrations since the registry was last empty or replaced, after a change.  The
schemas of a text count as registered in their order. -/
def recorded (log : List ProviderSchema) : Change → List ProviderSchema
  | .register schema => log ++ [schema]
  | .load text => (schemasOf? text).getD log
  | .clear => []

/-- The registrations since the registry was last empty or replaced. -/
def registered (changes : List Change) : List ProviderSchema :=
  changes.foldl recorded []

/-- The registration that counts for a provider of steps of a kind: the last one for exactly
this kind, and if there is none, the last one without a kind. -/
inductive Governing (log : List ProviderSchema) (provider : String) (kind : StepKind)
    (schema : ProviderSchema) : Prop where
  | specific :
      Last (·.key = (provider, some kind)) log schema →
      Governing log provider kind schema
  | general :
      (∀ other ∈ log, other.key ≠ (provider, some kind)) →
      Last (·.key = (provider, none)) log schema →
      Governing log provider kind schema

variable {registry : Registry} {log : List ProviderSchema} {schema : ProviderSchema}
  {provider : String} {kind : StepKind} {key : String × Option StepKind}

def held? (registry : Registry) (key : String × Option StepKind) : Option ProviderSchema :=
  registry.schemas.find? fun schema => schema.key = key

theorem find?_eq_held? (registry : Registry) (provider : String) (kind : Option StepKind) :
    registry.find? provider kind = registry.held? (provider, kind) := by
  simp [find?, held?, ProviderSchema.key]

theorem sameKey_iff {other : ProviderSchema} : other.sameKey schema ↔ other.key = schema.key := by
  simp [ProviderSchema.sameKey, ProviderSchema.key]

theorem held?_register :
    (registry.register schema).held? key =
      if schema.key = key then some schema else registry.held? key := by
  unfold held? register
  by_cases here : schema.key = key
  · rw [List.find?_cons_of_pos (by simpa using here), if_pos here]
  · rw [List.find?_cons_of_neg (by simpa using here), if_neg here, List.find?_filter]
    apply List.find?_congr
    intro other _
    by_cases found : other.key = key
    · have kept : ¬other.sameKey schema := by
        rw [sameKey_iff, found]
        exact Ne.symm here
      simp [found, kept]
    · simp [found]

/-- A registry holds the last registration for each key, and no other. -/
structure Remembers (registry : Registry) (log : List ProviderSchema) : Prop where
  latest : ∀ key, registry.held? key = log.reverse.find? fun schema => schema.key = key
  single : (registry.schemas.map ProviderSchema.key).Nodup

theorem Remembers.register (remembers : Remembers registry log) (schema : ProviderSchema) :
    Remembers (registry.register schema) (log ++ [schema]) where
  latest := by
    intro key
    rw [held?_register, remembers.latest, List.reverse_append, List.reverse_singleton,
      List.singleton_append, List.find?_cons]
    by_cases here : schema.key = key <;> simp [here]
  single := by
    refine List.nodup_cons.mpr ⟨?_, remembers.single.sublist (List.filter_sublist.map _)⟩
    rintro member
    obtain ⟨older, kept, same⟩ := List.mem_map.mp member
    have differs := (List.mem_filter.mp kept).2
    rw [sameKey_iff.mpr same] at differs
    cases differs

theorem Remembers.registerAll (remembers : Remembers registry log)
    (schemas : List ProviderSchema) :
    Remembers (schemas.foldl Registry.register registry) (log ++ schemas) := by
  induction schemas generalizing registry log with
  | nil => simpa using remembers
  | cons schema schemas induction =>
      rw [List.foldl_cons, List.append_cons]
      exact induction (remembers.register schema)

theorem remembers_empty : Remembers {} [] where
  latest := fun _ => rfl
  single := List.nodup_nil

theorem ofText?_eq_map (text : String) : ofText? text = (schemasOf? text).map ofSchemas := by
  rw [ofText?, schemasOf?, Option.map_bind]
  rfl

theorem Remembers.apply (remembers : Remembers registry log) (change : Change) :
    Remembers (registry.apply change) (recorded log change) := by
  cases change with
  | register schema => exact remembers.register schema
  | load text =>
      rw [Registry.apply, recorded, ofText?_eq_map]
      cases schemasOf? text with
      | none => exact remembers
      | some schemas => exact remembers_empty.registerAll schemas
  | clear => exact remembers_empty

/-- After any changes a registry holds the last registrations since it was last empty. -/
theorem remembers_registered (changes : List Change) :
    Remembers (after changes) (registered changes) := by
  induction changes using List.reverseRecOn with
  | nil => exact remembers_empty
  | append_singleton changes change induction =>
      rw [after, registered, List.foldl_concat, List.foldl_concat]
      exact induction.apply change

theorem Remembers.held?_eq_none (remembers : Remembers registry log) :
    registry.held? key = none ↔ ∀ other ∈ log, other.key ≠ key := by
  rw [remembers.latest, find?_reverse_eq_none]

theorem Remembers.get?_eq_some (remembers : Remembers registry log) :
    registry.get? provider kind = some schema ↔ Governing log provider kind schema := by
  rw [get?, find?_eq_held?, find?_eq_held?, remembers.latest, remembers.latest,
    or_find?_reverse_eq_some]
  constructor
  · rintro (specific | ⟨none, general⟩)
    · exact .specific specific
    · exact .general none general
  · rintro (specific | ⟨none, general⟩)
    · exact .inl specific
    · exact .inr ⟨none, general⟩

theorem Remembers.mem_keys (remembers : Remembers registry log) :
    key ∈ registry.schemas.map ProviderSchema.key ↔ key ∈ log.map ProviderSchema.key := by
  have absent : key ∉ registry.schemas.map ProviderSchema.key ↔
      key ∉ log.map ProviderSchema.key := by
    have held : registry.held? key = none ↔ ∀ other ∈ log, other.key ≠ key :=
      remembers.held?_eq_none
    simpa [held?] using held
  exact not_iff_not.mp absent

theorem Remembers.size_eq (remembers : Remembers registry log) :
    registry.size = (log.map ProviderSchema.key).toFinset.card := by
  have keys : (log.map ProviderSchema.key).toFinset =
      (registry.schemas.map ProviderSchema.key).toFinset := by
    ext key
    simp only [List.mem_toFinset, remembers.mem_keys]
  rw [keys, List.toFinset_card_of_nodup remembers.single, List.length_map, size]

/-- The registrations for each key are the same and in the same order. -/
def Reordered (log other : List ProviderSchema) : Prop :=
  ∀ key, log.filter (·.key = key) = other.filter (·.key = key)

theorem reordered_swap {other : ProviderSchema} (different : schema.key ≠ other.key)
    (before later : List ProviderSchema) :
    Reordered (before ++ schema :: other :: later) (before ++ other :: schema :: later) := by
  intro key
  by_cases first : schema.key = key
  · have second : other.key ≠ key := first ▸ different.symm
    simp [first, second]
  · simp [List.filter_cons, first]

theorem find?_reverse_of_reordered {other : List ProviderSchema} (reordered : Reordered log other)
    (key : String × Option StepKind) :
    log.reverse.find? (fun schema => schema.key = key) =
      other.reverse.find? fun schema => schema.key = key := by
  rw [← List.head?_filter, ← List.head?_filter, List.filter_reverse, List.filter_reverse,
    reordered key]

theorem Remembers.get?_eq_of_reordered {other : Registry} {otherLog : List ProviderSchema}
    (remembers : Remembers registry log) (otherRemembers : Remembers other otherLog)
    (reordered : Reordered log otherLog) (provider : String) (kind : StepKind) :
    registry.get? provider kind = other.get? provider kind := by
  simp only [get?, find?_eq_held?, remembers.latest, otherRemembers.latest,
    find?_reverse_of_reordered reordered]

end Registry

namespace Validation

variable {registry other : Registry} {options : ValidatorOptions}

theorem stepIssues_congr
    (same : ∀ provider kind, registry.get? provider kind = other.get? provider kind)
    (index : Nat) (step : Step) :
    stepIssues registry options index step = stepIssues other options index step := by
  simp only [stepIssues, providerIssues, same]

theorem issuesFrom_congr
    (same : ∀ provider kind, registry.get? provider kind = other.get? provider kind)
    (first : Nat) (steps : List Step) :
    issuesFrom registry options first steps = issuesFrom other options first steps := by
  induction steps generalizing first with
  | nil => rfl
  | cons step steps induction =>
      rw [issuesFrom, issuesFrom, stepIssues_congr same, induction]

end Validation

namespace Registry

/-- A registry finds the last registration that matches, one for the kind of step before one
for any kind; it counts each name and kind once; a document that cannot be read leaves no
trace; and the order among registrations for different names or kinds does not matter to
validation. -/
theorem finds_latest_registration :
    (∀ changes provider kind schema,
      (after changes).get? provider kind = some schema ↔
        Governing (registered changes) provider kind schema) ∧
    (∀ changes,
      (after changes).size = ((registered changes).map ProviderSchema.key).toFinset.card) ∧
    (∀ changes text later, ofText? text = none →
      after (changes ++ .load text :: later) = after (changes ++ later)) ∧
    ∀ changes others, Reordered (registered changes) (registered others) →
      ∀ (pipeline : Pipeline) (options : ValidatorOptions),
        pipeline.validate (after changes) options = pipeline.validate (after others) options := by
  refine ⟨?_, ?_, ?_, ?_⟩
  · intro changes provider kind schema
    exact (remembers_registered changes).get?_eq_some
  · intro changes
    exact (remembers_registered changes).size_eq
  · intro changes text later unreadable
    simp only [after, List.foldl_append, List.foldl_cons, apply, unreadable, Option.getD_none]
  · intro changes others reordered pipeline options
    have same := (remembers_registered changes).get?_eq_of_reordered
      (remembers_registered others) reordered
    exact Validation.issuesFrom_congr same 0 pipeline.steps

/-- A text that lists a schema for steps of any kind. -/
def listing : String :=
  "[\x7b\"name\": \"upscale\", \"description\": \"any\"\x7d]"

def listedSchema : ProviderSchema where
  name := "upscale"
  description := some "any"

def transformSchema : ProviderSchema where
  name := "upscale"
  kind := some .transform
  parameters := .single "factor" { type := .integer, required := true }

def enlargement : Pipeline where
  name := "enlargement"
  steps := [.transform { operation := "upscale", input := "sea", params := ∅, out := "large" }]

/-- The schema for transformations counts, whether it is registered before the one for any
kind or after it, and even if what follows is a text that cannot be read. -/
theorem transform_schema_counts :
    (after [.register transformSchema, .register listedSchema]).get? "upscale" .transform =
        some transformSchema ∧
      after [.load listing, .load "[", .register transformSchema] =
        after [.load listing, .register transformSchema] ∧
      enlargement.validate (after [.load listing, .register transformSchema]) .strict =
        enlargement.validate (after [.register transformSchema, .register listedSchema])
          .strict := by
  obtain ⟨finds, -, unreadable, validates⟩ := finds_latest_registration
  have listed : schemasOf? listing = some [listedSchema] := by decide +kernel
  have distinct : listedSchema.key ≠ transformSchema.key := by decide
  have reordered : Reordered (registered [.load listing, .register transformSchema])
      (registered [.register transformSchema, .register listedSchema]) := by
    simp only [registered, List.foldl_cons, List.foldl_nil, recorded, listed]
    exact reordered_swap distinct [] []
  refine ⟨(finds _ _ _ _).mpr (.specific ?_), unreadable [.load listing] "[" _ ?_,
    validates _ _ reordered enlargement .strict⟩
  · exact ⟨[], [listedSchema], rfl, rfl, List.forall_mem_singleton.mpr distinct⟩
  · rw [ofText?_eq_map, show schemasOf? "[" = none by decide +kernel]
    rfl

end Registry

end Workflow
