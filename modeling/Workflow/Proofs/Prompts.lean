import Workflow.Proofs.Deliveries

/-!
# Prompts

The prompt of a request has two parts: a text among the parameters that goes before it,
and what the prompt reference stands for, or else the prompt among the parameters.  Once
resolved, parameters stay as they are when they are resolved again.
-/

namespace Workflow

/-- The text that goes before the prompt: a parameter that is a text and not blank. -/
def Params.Prefaces (params : Params) (text : String) : Prop :=
  params.get? "prePrompt" = some (.string text) ∧ ∃ c ∈ text.toList, ¬Text.isBlank c

/-- The text that a prompt reference stands for: a field of what its variable holds, as it
is if it is a text and as compact JSON if not, or all that the variable has of text. -/
inductive PromptRef.StandsFor (reference : PromptRef) (store : Store) : String → Prop where
  | text {value : Value} {content : Json} {field text : String} :
      reference.field = some field →
      store.get? reference.name = some value → value.structured? = some content →
      content.lookup? field = some (.string text) →
      StandsFor reference store text
  | json {value : Value} {content found : Json} {field : String} :
      reference.field = some field →
      store.get? reference.name = some value → value.structured? = some content →
      content.lookup? field = some found → (∀ text, found ≠ .string text) →
      StandsFor reference store found.text
  | whole {value : Value} {text : String} :
      reference.field = none →
      store.get? reference.name = some value → value.textContent? = some text →
      StandsFor reference store text

/-- The prompt without what goes before it.  A reference counts before a parameter. -/
inductive Deferred.Tells (deferred : Deferred) (store : Store) (params : Params) :
    String → Prop where
  | reference {reference : PromptRef} {text : String} :
      deferred.prompt = some reference → reference.StandsFor store text →
      Tells deferred store params text
  | parameter {text : String} :
      deferred.prompt = none → params.get? "prompt" = some (.string text) →
      Tells deferred store params text

/-- What becomes of the parameter that holds the prompt: its parts in one, where there are
any, and else what it was. -/
inductive Deferred.Prompted (deferred : Deferred) (store : Store) (params : Params)
    (separator : String) : Option Json → Prop where
  | both {before body : String} :
      params.Prefaces before → deferred.Tells store params body →
      Prompted deferred store params separator (some (.string (before ++ separator ++ body)))
  | before {before : String} :
      params.Prefaces before → (∀ body, ¬deferred.Tells store params body) →
      Prompted deferred store params separator (some (.string before))
  | body {body : String} :
      (∀ before, ¬params.Prefaces before) → deferred.Tells store params body →
      Prompted deferred store params separator (some (.string body))
  | neither :
      (∀ before, ¬params.Prefaces before) → (∀ body, ¬deferred.Tells store params body) →
      Prompted deferred store params separator (params.get? "prompt")

variable {scope : Scope} {store : Store} {params other resolved : Params} {separator : String}

namespace Resolve

theorem string?_eq_some {content : Option Json} {text : String} :
    content.bind Json.string? = some text ↔ content = some (.string text) := by
  cases content with
  | none => simp
  | some value => cases value <;> simp [Json.string?]

theorem prePrompt?_eq_some {text : String} :
    prePrompt? (visible params) = some text ↔ params.Prefaces text := by
  have shown : (visible params).get? "prePrompt" = params.get? "prePrompt" := by
    rw [get?_visible, if_neg (Step.not_marked "prePrompt" (by decide))]
  rw [prePrompt?, Option.filter_eq_some_iff, shown, string?_eq_some, Params.Prefaces]
  simp [Text.isBlankText]

theorem promptContent_eq_ok {reference : PromptRef} {text : String} :
    promptContent scope store reference = .ok text ↔ reference.StandsFor store text := by
  unfold promptContent
  cases named : reference.field with
  | some field =>
      simp only [Outcome.map_eq_ok, Scope.field_eq_ok]
      constructor
      · rintro ⟨found, ⟨value, content, held, holds, there⟩, rfl⟩
        cases found with
        | string text => exact .text named held holds there
        | null | bool _ | number _ | array _ | object _ =>
            refine .json named held holds there ?_
            rintro other ⟨⟩
      · intro stands
        cases stands with
        | text sameNamed held holds there =>
            obtain rfl := Option.some.inj (named.symm.trans sameNamed)
            exact ⟨_, ⟨_, _, held, holds, there⟩, rfl⟩
        | @json _ _ found _ sameNamed held holds there other =>
            obtain rfl := Option.some.inj (named.symm.trans sameNamed)
            refine ⟨found, ⟨_, _, held, holds, there⟩, ?_⟩
            cases found with
            | string text => exact absurd rfl (other text)
            | null | bool _ | number _ | array _ | object _ => rfl
        | whole unnamed => cases named.symm.trans unnamed
  | none =>
      simp only [Outcome.bind_eq_ok, Scope.read_eq_ok]
      constructor
      · rintro ⟨value, held, made⟩
        split at made
        · rename_i text holds
          obtain rfl := Outcome.pure_eq_ok.mp made
          exact .whole named held holds
        · cases made
      · intro stands
        cases stands with
        | text sameNamed | json sameNamed => cases named.symm.trans sameNamed
        | whole _ held holds =>
            refine ⟨_, held, ?_⟩
            rw [holds]
            rfl

/-- The part of the prompt that is resolved is what the references and the parameters say. -/
theorem promptBody_tells {deferred : Deferred} {body : Option String}
    (made : promptBody scope store (visible params) deferred.prompt = .ok body) (text : String) :
    body = some text ↔ deferred.Tells store params text := by
  unfold promptBody at made
  split at made
  · rename_i reference given
    obtain ⟨content, stands, rfl⟩ := Outcome.map_eq_ok.mp made
    constructor
    · rintro ⟨⟩
      exact .reference given (promptContent_eq_ok.mp stands)
    · intro tells
      cases tells with
      | reference sameGiven standsFor =>
          obtain rfl := Option.some.inj (given.symm.trans sameGiven)
          rw [promptContent_eq_ok.mpr standsFor] at stands
          exact congrArg some (Except.ok.inj stands).symm
      | parameter absent => cases given.symm.trans absent
  · rename_i given
    obtain rfl := Except.ok.inj made
    rw [get?_visible, if_neg (Step.not_marked "prompt" (by decide)), string?_eq_some]
    constructor
    · exact .parameter given
    · intro tells
      cases tells with
      | reference present => cases given.symm.trans present
      | parameter _ bound => exact bound

theorem get?_prompt_joined {reference : Option PromptRef}
    (made : prompt scope store params reference separator = .ok resolved) :
    ∃ body, promptBody scope store params reference = .ok body ∧
      resolved.get? "prompt" =
        ((joinPrompt separator (prePrompt? params) body).map Json.string).or
          (params.get? "prompt") := by
  obtain ⟨body, found, made⟩ := Outcome.bind_eq_ok.mp made
  refine ⟨body, found, ?_⟩
  cases joined : joinPrompt separator (prePrompt? params) body with
  | some text =>
      simp only [joined] at made
      rw [← Outcome.pure_eq_ok.mp made, KeyMap.get?_insert, if_pos rfl]
      rfl
  | none =>
      simp only [joined] at made
      rw [← Outcome.pure_eq_ok.mp made, KeyMap.get?_erase, if_neg (by decide)]
      rfl

theorem prompt_prompted {deferred : Deferred}
    (made : prompt scope store (visible params) deferred.prompt separator = .ok resolved) :
    deferred.Prompted store params separator (resolved.get? "prompt") := by
  obtain ⟨body, found, joined⟩ := get?_prompt_joined made
  have tells := promptBody_tells found
  have prefaces : ∀ text, prePrompt? (visible params) = some text ↔ params.Prefaces text :=
    fun _ => prePrompt?_eq_some
  rw [joined, get?_visible, if_neg (Step.not_marked "prompt" (by decide))]
  generalize prePrompt? (visible params) = before at prefaces
  have absent : ∀ {part : Option String} {Holds : String → Prop},
      (∀ text, part = some text ↔ Holds text) → part = none → ∀ text, ¬Holds text := by
    rintro part Holds same rfl text holds
    cases (same text).mpr holds
  cases before with
  | some before =>
      have preface := (prefaces before).mp rfl
      cases body with
      | some body => exact .both preface ((tells body).mp rfl)
      | none => exact .before preface (absent tells rfl)
  | none =>
      have noPreface := absent prefaces rfl
      cases body with
      | some body => exact .body noPreface ((tells body).mp rfl)
      | none => exact .neither noPreface (absent tells rfl)

/-- A reference makes the prompt among the parameters irrelevant. -/
theorem prompt_overridden (reference : PromptRef)
    (others : ∀ name, name ≠ "prompt" → other.get? name = params.get? name) :
    prompt scope store (visible other) (some reference) separator =
      prompt scope store (visible params) (some reference) separator := by
  have shown : ∀ name, name ≠ "prompt" →
      (visible other).get? name = (visible params).get? name := by
    intro name notPrompt
    rw [get?_visible, get?_visible, others name notPrompt]
  have inserted : ∀ value, ((visible other).erase "prePrompt").insert "prompt" value =
      ((visible params).erase "prePrompt").insert "prompt" value := by
    intro value
    apply KeyMap.ext_get?
    intro name
    by_cases isPrompt : name = "prompt"
    · simp [KeyMap.get?_insert, isPrompt]
    · simp [KeyMap.get?_insert, KeyMap.get?_erase, isPrompt, shown name isPrompt]
  have same : prePrompt? (visible other) = prePrompt? (visible params) := by
    rw [prePrompt?, prePrompt?, shown "prePrompt" (by decide)]
  simp only [prompt, promptBody, same]
  cases promptContent scope store reference with
  | error error => rfl
  | ok text =>
      simp only [Except.map, bind, Except.bind]
      cases prePrompt? (visible params) with
      | none => exact congrArg Except.ok (inserted _)
      | some before => exact congrArg Except.ok (inserted _)

/-- Parameters without those that the engine keeps for itself. -/
def Settled (params : Params) : Prop :=
  ∀ name, Text.startsWith internalMarker name ∨ name = "prePrompt" → params.get? name = none

theorem Settled.visible (settled : Settled params) : visible params = params := by
  apply KeyMap.ext_get?
  intro name
  rw [get?_visible]
  split
  · rename_i marked
    exact (settled name (.inl marked)).symm
  · rfl

theorem Settled.prompt (settled : Settled params) (scope : Scope) (store : Store)
    (separator : String) :
    prompt scope store (Resolve.visible params) none separator = .ok params := by
  have absent := settled "prePrompt" (.inr rfl)
  have noPreface : prePrompt? params = none := by
    rw [prePrompt?, absent]
    rfl
  simp only [settled.visible, Resolve.prompt, promptBody, bind, Except.bind, noPreface,
    KeyMap.erase_eq_self absent]
  cases body : (params.get? "prompt").bind Json.string? with
  | none => rfl
  | some text => exact congrArg Except.ok (KeyMap.insert_eq_self (string?_eq_some.mp body))

/-- Whether overlays are found does not depend on their settings. -/
theorem exists_boundOverlays {settings : List Json} (others : List Json)
    {references : List ImageRef} {found : List Overlay}
    (shown : boundOverlays scope store settings references = .ok found) :
    ∃ again, boundOverlays scope store others references = .ok again := by
  induction references generalizing found with
  | nil => exact ⟨[], rfl⟩
  | cons reference rest induction =>
      rw [boundOverlays] at shown ⊢
      cases held : store.get? reference.name with
      | none =>
          rw [held] at shown
          exact induction shown
      | some value =>
          rw [held] at shown
          simp only at shown ⊢
          cases first : value.images.head? with
          | none =>
              rw [first] at shown
              cases shown
          | some image =>
              rw [first] at shown
              obtain ⟨later, shownLater, -⟩ := Outcome.map_eq_ok.mp shown
              obtain ⟨again, shownAgain⟩ := induction shownLater
              exact ⟨_, Outcome.map_eq_ok.mpr ⟨again, shownAgain, rfl⟩⟩

theorem exists_overlays {settings : List Json} (others : List Json)
    {references : List ImageRef} {found : List Overlay}
    (shown : overlays scope store settings references = .ok found) :
    ∃ again, overlays scope store others references = .ok again := by
  obtain ⟨looked, bound⟩ := bound_of_ok shown
  obtain ⟨again, lookedAgain⟩ := exists_boundOverlays others looked
  refine ⟨again, ?_⟩
  rw [overlays, lookedAgain, bound]
  rfl

end Resolve

namespace Deferred

variable {deferred : Deferred} {found : Resolved}

theorem resolve_settled (made : deferred.resolve scope store params separator = .ok found) :
    Resolve.Settled found.params := by
  intro name kept
  have other : name ≠ "prompt" := by
    rintro rfl
    rcases kept with marked | isPrePrompt
    · exact Step.not_marked "prompt" (by decide) marked
    · exact absurd isPrePrompt (by decide)
  rw [get?_resolve made other, if_pos]
  rcases kept with marked | rfl <;> simp [withholds, *]

theorem exists_prompt (made : deferred.resolve scope store params separator = .ok found) :
    ∃ prompted, Resolve.prompt scope store (Resolve.visible params) deferred.prompt separator =
        .ok prompted ∧
      found.params.get? "prompt" = prompted.get? "prompt" := by
  simp only [resolve, Outcome.bind_eq_ok] at made
  obtain ⟨prompted, prompt, images, -, made⟩ := made
  refine ⟨prompted, prompt, ?_⟩
  split at made
  · obtain rfl := Outcome.pure_eq_ok.mp made
    rfl
  · obtain ⟨overlays, -, made⟩ := Outcome.bind_eq_ok.mp made
    obtain rfl := Outcome.pure_eq_ok.mp made
    rw [KeyMap.get?_erase, if_neg (by decide)]

/-- With a reference, the prompt among the parameters does not count. -/
theorem resolve_overridden (marked : deferred.prompt.isSome)
    (others : ∀ name, name ≠ "prompt" → other.get? name = params.get? name) :
    deferred.resolve scope store other separator =
      deferred.resolve scope store params separator := by
  obtain ⟨reference, given⟩ := Option.isSome_iff_exists.mp marked
  rw [resolve, resolve, given, Resolve.prompt_overridden reference others]

/-- Resolving parameters that are settled, with nothing to refer to, changes nothing. -/
theorem resolve_of_settled (settled : Resolve.Settled params) (scope : Scope) (store : Store)
    (separator : String) :
    ({} : Deferred).resolve scope store params separator =
      .ok { params, referenceImages := [], overlays := [] } := by
  simp only [resolve, settled.prompt scope store separator]
  rfl

theorem exists_resolve_again (made : deferred.resolve scope store params separator = .ok found) :
    ∃ again, ({ deferred with prompt := none } : Deferred).resolve scope store found.params
        separator = .ok again ∧
      again.params = found.params ∧ again.referenceImages = found.referenceImages := by
  have prompted := (resolve_settled made).prompt scope store separator
  simp only [resolve, Outcome.bind_eq_ok] at made ⊢
  obtain ⟨first, -, images, pictured, made⟩ := made
  split at made
  · rename_i bare
    obtain rfl := Outcome.pure_eq_ok.mp made
    exact ⟨_, ⟨_, prompted, images, pictured, if_pos bare⟩, rfl, rfl⟩
  · rename_i overlaid
    obtain ⟨overlays, laid, made⟩ := Outcome.bind_eq_ok.mp made
    obtain rfl := Outcome.pure_eq_ok.mp made
    obtain ⟨again, laidAgain⟩ := Resolve.exists_overlays
      (Resolve.overlaySettings (first.erase "overlays")) laid
    have absent : (first.erase "overlays").get? "overlays" = none := by
      rw [KeyMap.get?_erase, if_pos rfl]
    refine ⟨⟨first.erase "overlays", images, again⟩, ⟨_, prompted, images, pictured, ?_⟩, rfl, rfl⟩
    rw [if_neg overlaid, laidAgain, KeyMap.erase_eq_self absent]
    rfl

/-- The prompt of resolved parameters has the two parts that there are, as they are; the
prompt among the parameters counts only without a reference.  What is resolved stays as it is
when it is resolved again without a reference for the prompt. -/
theorem resolve_prompts (made : deferred.resolve scope store params separator = .ok found) :
    deferred.Prompted store params separator (found.params.get? "prompt") ∧
    (deferred.prompt.isSome →
      ∀ other : Params, (∀ name, name ≠ "prompt" → other.get? name = params.get? name) →
        deferred.resolve scope store other separator = .ok found) ∧
    (∀ scope store separator, ({} : Deferred).resolve scope store found.params separator =
      .ok { params := found.params, referenceImages := [], overlays := [] }) ∧
    ∃ again, ({ deferred with prompt := none } : Deferred).resolve scope store found.params
        separator = .ok again ∧
      again.params = found.params ∧ again.referenceImages = found.referenceImages := by
  refine ⟨?_, ?_, ?_, exists_resolve_again made⟩
  · obtain ⟨prompted, prompt, same⟩ := exists_prompt made
    rw [same]
    exact Resolve.prompt_prompted prompt
  · intro marked other others
    rw [resolve_overridden marked others, made]
  · intro scope store separator
    exact resolve_of_settled (resolve_settled made) scope store separator

/-- A prompt that is read from what was said of a photo. -/
def scenic : Deferred where
  prompt := some { name := "photo", field := some "scene.1" }

/-- A way to paint it, and a prompt that does not count. -/
def scenicParams : Params :=
  .ofList [("prePrompt", .string "In oil: "), ("prompt", .string "a fox"), ("__seed", .nat 7)]

def scenicStore : Store :=
  ⟨[("photo", .data "\x7b\"scene\": [null, [\"a pier\", 3]]\x7d")]⟩

theorem scenic_prompts :
    ∃ found, scenic.resolve ⟨0, "sea", .generate⟩ scenicStore scenicParams "\n" = .ok found ∧
      scenic.Prompted scenicStore scenicParams "\n"
        (some (.string "In oil: \n[\"a pier\",3]")) ∧
      scenic.resolve ⟨0, "sea", .generate⟩ scenicStore (scenicParams.erase "prompt") "\n" =
        .ok found ∧
      ({} : Deferred).resolve ⟨0, "sea", .generate⟩ scenicStore found.params "\n" =
        .ok { params := found.params, referenceImages := [], overlays := [] } := by
  have made : scenic.resolve ⟨0, "sea", .generate⟩ scenicStore scenicParams "\n" =
      .ok ⟨.single "prompt" (.string "In oil: \n[\"a pier\",3]"), [], []⟩ := by
    decide +kernel
  obtain ⟨prompted, overridden, settled, -⟩ := resolve_prompts made
  refine ⟨_, made, prompted, overridden rfl _ ?_, settled _ _ _⟩
  intro name notPrompt
  rw [KeyMap.get?_erase, if_neg notPrompt]

end Deferred

end Workflow
