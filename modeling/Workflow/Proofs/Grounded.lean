import Workflow.Proofs.Store
import Workflow.Run.Resolve

/-!
# Results that do not dangle

An error dangles if it tells of a variable that is never bound, or bound twice.
`Grounded` says of a computation that it has no such error and that its value
satisfies a condition.  Reading variables is grounded where they are bound, and
so is resolving the references of a step.
-/

namespace Workflow

/-- Errors about variables that are bound never or twice. -/
def RunError.Dangling : RunError → Prop
  | missingVariable .. | missingImages .. | collectIncomplete .. | variableConflict _ => True
  | unexpectedValue .. | missingField .. | lengthMismatch .. | selection .. | stepFailed ..
  | emptyOutput _ | cancelled .. => False

/-- The result is a value that satisfies a condition, or an error that does not
dangle. -/
structure Grounded (result : Except RunError α) (condition : α → Prop) : Prop where
  value : ∀ value, result = .ok value → condition value
  error : ∀ error, result = .error error → ¬error.Dangling

namespace Grounded

variable {condition weaker : α → Prop} {further : β → Prop}

@[simp] theorem of_ok {value : α} : Grounded (.ok value) condition ↔ condition value := by
  constructor
  · exact fun grounded => grounded.value value rfl
  · intro holds
    constructor
    · rintro _ ⟨⟩
      exact holds
    · rintro _ ⟨⟩

@[simp] theorem of_error {refusal : RunError} :
    Grounded (.error refusal) condition ↔ ¬refusal.Dangling := by
  constructor
  · exact fun grounded => grounded.error refusal rfl
  · intro settled
    constructor
    · rintro _ ⟨⟩
    · rintro _ ⟨⟩
      exact settled

@[simp] theorem of_pure {value : α} :
    Grounded (pure value) condition ↔ condition value :=
  of_ok

@[simp] theorem of_throw {refusal : RunError} :
    Grounded (throw refusal) condition ↔ ¬refusal.Dangling :=
  of_error

theorem imp {result : Except RunError α} (grounded : Grounded result condition)
    (implies : ∀ value, condition value → weaker value) : Grounded result weaker where
  value value made := implies value (grounded.value value made)
  error := grounded.error

theorem bind {computation : Except RunError α} {next : α → Except RunError β}
    (first : Grounded computation condition)
    (rest : ∀ value, condition value → Grounded (next value) further) :
    Grounded (computation >>= next) further := by
  cases computation with
  | error refusal => exact of_error.mpr (of_error.mp first)
  | ok value => exact rest value (of_ok.mp first)

theorem map {computation : Except RunError α} {change : α → β}
    (first : Grounded computation fun value => further (change value)) :
    Grounded (computation.map change) further := by
  cases computation with
  | error refusal => exact of_error.mpr (of_error.mp first)
  | ok value => exact of_ok.mpr (first.value value rfl)

end Grounded

variable {scope : Scope} {store : Store} {name : String}

namespace Scope

theorem read_grounded (bound : name ∈ store.names) :
    Grounded (scope.read store name) fun _ => True := by
  obtain ⟨value, found⟩ := Store.exists_get?.mpr bound
  simp [read, found]

theorem structured_grounded (value : Value) :
    Grounded (scope.structured name value) fun _ => True := by
  unfold structured
  cases value.structured? <;> simp [RunError.Dangling]

theorem path_grounded (content : Json) (path : String) :
    Grounded (scope.path name content path) fun _ => True := by
  unfold Scope.path
  cases content.lookup? path <;> simp [RunError.Dangling]

theorem field_grounded (bound : name ∈ store.names) (field : String) :
    Grounded (scope.field store name field) fun _ => True := by
  unfold Scope.field
  refine (read_grounded bound).bind fun value _ => ?_
  refine (structured_grounded value).bind fun content _ => ?_
  exact path_grounded content field

end Scope

namespace Resolve

theorem promptContent_grounded {reference : PromptRef} (bound : reference.name ∈ store.names) :
    Grounded (promptContent scope store reference) fun _ => True := by
  unfold promptContent
  cases reference.field with
  | some field => exact (Scope.field_grounded bound field).map
  | none =>
      refine (Scope.read_grounded bound).bind fun value _ => ?_
      cases value.textContent? <;> simp [RunError.Dangling]

theorem prompt_grounded {params : Params} {reference : Option PromptRef} {separator : String}
    (bound : ∀ found ∈ reference, found.name ∈ store.names) :
    Grounded (prompt scope store params reference separator) fun _ => True := by
  have body : Grounded (promptBody scope store params reference) fun _ => True := by
    cases reference with
    | none => simp [promptBody]
    | some found => exact (promptContent_grounded (bound found rfl)).map
  unfold prompt
  refine body.bind fun text _ => ?_
  cases joinPrompt separator (prePrompt? params) text <;> simp

theorem images_grounded (references : List ImageRef) :
    Grounded (images scope store references) fun _ => True := by
  induction references with
  | nil => simp [images]
  | cons reference rest induction =>
      unfold images
      cases store.get? reference.name with
      | none => exact induction
      | some value =>
          by_cases imageless : value.images.isEmpty
          · simp [imageless, RunError.Dangling]
          · simp only [imageless, Bool.false_eq_true, if_false]
            exact induction.map

theorem boundOverlays_grounded (settings : List Json) (references : List ImageRef) :
    Grounded (boundOverlays scope store settings references) fun _ => True := by
  induction references with
  | nil => simp [boundOverlays]
  | cons reference rest induction =>
      unfold boundOverlays
      cases store.get? reference.name with
      | none => exact induction
      | some value =>
          cases first : value.images.head? with
          | none => simp [first, RunError.Dangling]
          | some image =>
              simp only [first]
              exact induction.map

theorem unbound_eq_nil {references : List ImageRef}
    (bound : ∀ reference ∈ references, reference.name ∈ store.names) :
    unbound store references = [] := by
  simpa [unbound, Store.contains_iff_mem] using bound

theorem referenceImages_grounded {references : List ImageRef}
    (bound : ∀ reference ∈ references, reference.name ∈ store.names) :
    Grounded (referenceImages scope store references) fun _ => True := by
  unfold referenceImages
  refine (images_grounded references).bind fun found _ => ?_
  simp [unbound_eq_nil bound]

theorem overlays_grounded {settings : List Json} {references : List ImageRef}
    (bound : ∀ reference ∈ references, reference.name ∈ store.names) :
    Grounded (overlays scope store settings references) fun _ => True := by
  unfold overlays
  refine (boundOverlays_grounded settings references).bind fun found _ => ?_
  simp [unbound_eq_nil bound]

end Resolve

/-- Where the names of all references are bound, they are resolved or a value is
of the wrong kind. -/
theorem Deferred.resolve_grounded {deferred : Deferred} {params : Params} {separator : String}
    (bound : deferred.names ⊆ store.names) :
    Grounded (deferred.resolve scope store params separator) fun _ => True := by
  simp only [Deferred.names, List.append_subset] at bound
  obtain ⟨⟨prompt, references⟩, overlays⟩ := bound
  unfold Deferred.resolve
  refine (Resolve.prompt_grounded fun found member => prompt ?_).bind fun resolved _ => ?_
  · exact List.mem_map_of_mem (Option.mem_toList.mpr member)
  refine (Resolve.referenceImages_grounded fun reference member => references ?_).bind
    fun images _ => ?_
  · exact List.mem_map_of_mem member
  by_cases none : deferred.overlays.isEmpty
  · simp [none]
  · simp only [none, Bool.false_eq_true, if_false]
    refine (Resolve.overlays_grounded fun reference member => overlays ?_).bind fun _ _ => ?_
    · exact List.mem_map_of_mem member
    · simp

end Workflow
