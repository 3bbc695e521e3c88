import Workflow.Proofs.Artifacts

/-!
# Images behind references

A reference stands for the images among the leaves of what its variable holds.  The
references of a port whose variables are not bound are reported all at once, unless a
bound one holds no image: the first of those is reported instead, alone.
-/

namespace Workflow

/-- The image, if the leaf is one. -/
def Leaf.image? : Leaf → Option Image
  | image content => some content
  | text _ => none

namespace Value

/-- The images among the leaves of a value. -/
def pictures (value : Value) : List Image :=
  value.leaves.filterMap Leaf.image?

mutual

theorem images_eq_pictures (value : Value) : value.images = value.pictures := by
  cases value with
  | image content => rfl
  | data text => rfl
  | list items => exact itemImages_eq_pictures items

theorem itemImages_eq_pictures (items : List Value) :
    itemImages items = (itemLeaves items).filterMap Leaf.image? := by
  cases items with
  | nil => rfl
  | cons item items =>
      rw [itemImages, itemLeaves, List.filterMap_append, images_eq_pictures item,
        itemImages_eq_pictures items]
      rfl

end

end Value

/-- The references that are bound stand for images. -/
def Store.Pictured (store : Store) (references : List ImageRef) : Prop :=
  ∀ reference ∈ references, ∀ value, store.get? reference.name = some value →
    value.pictures ≠ []

variable {scope : Scope} {store : Store} {references front back : List ImageRef}
  {reference : ImageRef} {value : Value}

theorem Store.pictured_cons :
    store.Pictured (reference :: references) ↔
      (∀ value, store.get? reference.name = some value → value.pictures ≠ []) ∧
        store.Pictured references :=
  List.forall_mem_cons

theorem Store.exists_unpictured (unfit : ¬store.Pictured references) :
    ∃ front reference back value, references = front ++ reference :: back ∧
      store.Pictured front ∧ store.get? reference.name = some value ∧ value.pictures = [] := by
  induction references with
  | nil => exact absurd (List.forall_mem_nil _) unfit
  | cons first rest induction =>
      by_cases fit : ∀ value, store.get? first.name = some value → value.pictures ≠ []
      · have later : ¬store.Pictured rest := by
          intro pictured
          exact unfit (Store.pictured_cons.mpr ⟨fit, pictured⟩)
        obtain ⟨front, reference, back, value, rfl, pictured, found⟩ := induction later
        exact ⟨first :: front, reference, back, value, rfl,
          Store.pictured_cons.mpr ⟨fit, pictured⟩, found⟩
      · push Not at fit
        obtain ⟨value, found, imageless⟩ := fit
        exact ⟨[], first, rest, value, rfl, List.forall_mem_nil _, found, imageless⟩

/-- How missing images of a port are reported. -/
inductive Resolve.Reports (scope : Scope) (store : Store) (port : ImagePort)
    (references : List ImageRef) : RunError → Prop
  | together :
      store.Pictured references →
      Reports scope store port references (.missingImages scope port
        (references.filter fun reference => reference.name ∉ store.names))
  | alone {front back : List ImageRef} {reference : ImageRef} {value : Value} :
      references = front ++ reference :: back →
      store.Pictured front →
      store.get? reference.name = some value →
      value.pictures = [] →
      Reports scope store port references
        (.unexpectedValue scope reference.name "an image" value.typeName)

namespace Resolve

theorem images_of_pictured (scope : Scope) (pictured : store.Pictured references) :
    ∃ found, images scope store references = .ok found := by
  induction references with
  | nil => exact ⟨[], rfl⟩
  | cons reference rest induction =>
      obtain ⟨fit, later⟩ := Store.pictured_cons.mp pictured
      obtain ⟨found, rest⟩ := induction later
      rw [images]
      cases bound : store.get? reference.name with
      | none => exact ⟨found, rest⟩
      | some value =>
          have depicted : ¬value.images.isEmpty := by
            rw [Value.images_eq_pictures, List.isEmpty_iff]
            exact fit value bound
          simp [depicted, rest, Except.map]

theorem images_of_unpictured (pictured : store.Pictured front)
    (found : store.get? reference.name = some value) (imageless : value.pictures = []) :
    images scope store (front ++ reference :: back) =
      .error (.unexpectedValue scope reference.name "an image" value.typeName) := by
  induction front with
  | nil =>
      rw [List.nil_append, images, found]
      simp [Value.images_eq_pictures, imageless]
  | cons first front induction =>
      obtain ⟨fit, later⟩ := Store.pictured_cons.mp pictured
      have rest := induction later
      rw [List.cons_append, images]
      cases bound : store.get? first.name with
      | none => exact rest
      | some held =>
          have depicted : ¬held.images.isEmpty := by
            rw [Value.images_eq_pictures, List.isEmpty_iff]
            exact fit held bound
          simp [depicted, rest, Except.map]

theorem boundOverlays_eq_error {settings : List Json} {error : RunError} :
    boundOverlays scope store settings references = .error error ↔
      images scope store references = .error error := by
  induction references with
  | nil => simp [boundOverlays, images]
  | cons reference rest induction =>
      rw [boundOverlays, images]
      cases store.get? reference.name with
      | none => exact induction
      | some value =>
          cases shown : value.images with
          | nil => simp [shown]
          | cons image others =>
              simp only [shown, List.head?_cons, List.isEmpty_cons, Bool.false_eq_true, if_false]
              rw [Outcome.map_eq_error, Outcome.map_eq_error]
              exact induction

theorem unbound_eq_filter (store : Store) (references : List ImageRef) :
    unbound store references =
      references.filter fun reference => reference.name ∉ store.names := by
  apply List.filter_congr
  intro reference member
  simp only [decide_not, ← Store.contains_iff_mem, Bool.decide_eq_true]

theorem exists_prompt {reference : Option PromptRef} (params : Params) (separator : String)
    (prompts : ∀ found ∈ reference, ∃ text, promptContent scope store found = .ok text) :
    ∃ prompted, prompt scope store params reference separator = .ok prompted := by
  obtain ⟨body, readable⟩ : ∃ body, promptBody scope store params reference = .ok body := by
    cases reference with
    | none => exact ⟨_, rfl⟩
    | some found =>
        obtain ⟨text, content⟩ := prompts found rfl
        exact ⟨some text, Outcome.map_eq_ok.mpr ⟨text, content, rfl⟩⟩
  cases joined : joinPrompt separator (prePrompt? params) body with
  | none =>
      refine ⟨params.erase "prePrompt", Outcome.bind_eq_ok.mpr ⟨body, readable, ?_⟩⟩
      rw [joined]
      rfl
  | some text =>
      refine ⟨(params.erase "prePrompt").insert "prompt" (.string text),
        Outcome.bind_eq_ok.mpr ⟨body, readable, ?_⟩⟩
      rw [joined]
      rfl

/-- Where a port's references are looked up and some of them are not bound, there is one
error for all of them, or one for the first value without an image. -/
theorem reports_of_unbound {port : ImagePort} {lookedUp : Except RunError α}
    (fails : ∀ error, lookedUp = .error error ↔ images scope store references = .error error)
    (missing : ∃ reference ∈ references, reference.name ∉ store.names) :
    ∃ error, (do
        let found ← lookedUp
        match unbound store references with
        | [] => return found
        | missing => throw (.missingImages scope port missing)) = Except.error error ∧
      Reports scope store port references error := by
  by_cases pictured : store.Pictured references
  · obtain ⟨shown, succeeds⟩ := images_of_pictured scope pictured
    refine ⟨_, ?_, .together pictured⟩
    cases lookedUp with
    | error error =>
        have refused := (fails error).mp rfl
        rw [succeeds] at refused
        cases refused
    | ok found =>
        rw [← unbound_eq_filter]
        cases listed : unbound store references with
        | nil =>
            obtain ⟨reference, member, absent⟩ := missing
            rw [unbound_eq_filter, List.filter_eq_nil_iff] at listed
            exact absurd (decide_eq_true absent) (listed reference member)
        | cons first rest => rfl
  · obtain ⟨front, reference, back, value, rfl, before, bound, imageless⟩ :=
      Store.exists_unpictured pictured
    have refused : lookedUp =
        .error (.unexpectedValue scope reference.name "an image" value.typeName) :=
      (fails _).mpr (images_of_unpictured before bound imageless)
    refine ⟨_, ?_, .alone rfl before bound imageless⟩
    rw [refused]
    rfl

end Resolve

/-- Where the prompt of a step can be resolved and reference images are not bound, these
are reported; where the reference images can be resolved too and overlays are not bound,
then those are. -/
theorem Deferred.resolve_reports {deferred : Deferred} (params : Params) (separator : String)
    (prompts : ∀ reference ∈ deferred.prompt, ∃ text,
      Resolve.promptContent scope store reference = .ok text) :
    ((∃ reference ∈ deferred.references, reference.name ∉ store.names) →
        ∃ error, deferred.resolve scope store params separator = .error error ∧
          Resolve.Reports scope store .references deferred.references error) ∧
      ∀ images, Resolve.referenceImages scope store deferred.references = .ok images →
        (∃ overlay ∈ deferred.overlays, overlay.name ∉ store.names) →
          ∃ error, deferred.resolve scope store params separator = .error error ∧
            Resolve.Reports scope store .overlays deferred.overlays error := by
  obtain ⟨prompted, prompt⟩ : ∃ prompted, Resolve.prompt scope store (Resolve.visible params)
      deferred.prompt separator = .ok prompted :=
    Resolve.exists_prompt (Resolve.visible params) separator prompts
  constructor
  · intro missing
    obtain ⟨error, refused, reports⟩ : ∃ error,
        Resolve.referenceImages scope store deferred.references = .error error ∧
          Resolve.Reports scope store .references deferred.references error :=
      Resolve.reports_of_unbound (fun _ => Iff.rfl) missing
    refine ⟨error, ?_, reports⟩
    rw [resolve, prompt, Outcome.bind_eq_error]
    right
    refine ⟨prompted, rfl, ?_⟩
    rw [refused]
    rfl
  · intro images found missing
    obtain ⟨error, refused, reports⟩ : ∃ error,
        Resolve.overlays scope store (Resolve.overlaySettings prompted) deferred.overlays =
            .error error ∧
          Resolve.Reports scope store .overlays deferred.overlays error :=
      Resolve.reports_of_unbound (fun _ => Resolve.boundOverlays_eq_error) missing
    have overlaid : deferred.overlays.isEmpty = false := by
      obtain ⟨overlay, member, -⟩ := missing
      exact List.isEmpty_eq_false_iff_exists_mem.mpr ⟨overlay, member⟩
    refine ⟨error, ?_, reports⟩
    rw [resolve, prompt, Outcome.bind_eq_error]
    right
    refine ⟨prompted, rfl, ?_⟩
    rw [found, Outcome.bind_eq_error]
    right
    refine ⟨images, rfl, ?_⟩
    rw [if_neg (by simp [overlaid]), refused]
    rfl

/-- A picture with a title, made from two others with two overlays. -/
def Deferred.collage : Deferred where
  prompt := some { name := "title" }
  references := [{ name := "photo", index := 0 }, { name := "notes", index := 1 }]
  overlays := [{ name := "frame", index := 0 }, { name := "seal", index := 3 }]

def Scope.wall : Scope :=
  { index := 0, node := "wall", kind := .generate }

/-- Only the first of the two pictures is there. -/
def Store.desk : Store :=
  ⟨[("photo", .list [.image {}, .data "at dusk"]), ("title", .data "Summer")]⟩

/-- Both pictures are there. -/
def Store.shelf : Store :=
  ⟨[("notes", .image {}), ("photo", .image {}), ("title", .data "Summer")]⟩

/-- Instead of the first picture there is a text. -/
def Store.drawer : Store :=
  ⟨[("photo", .data "at dusk"), ("title", .data "Summer")]⟩

theorem collage_reports :
    (∃ error, Deferred.collage.resolve .wall .desk ∅ "\n\n" = .error error ∧
      Resolve.Reports .wall .desk .references Deferred.collage.references error) ∧
      ∃ error, Deferred.collage.resolve .wall .shelf ∅ "\n\n" = .error error ∧
        Resolve.Reports .wall .shelf .overlays Deferred.collage.overlays error := by
  constructor
  · apply (Deferred.resolve_reports ∅ "\n\n" _).1
    · exact ⟨{ name := "notes", index := 1 }, by decide, by decide⟩
    · rintro reference ⟨⟩
      exact ⟨"Summer", rfl⟩
  · apply (Deferred.resolve_reports ∅ "\n\n" _).2 [{}, {}]
    · rfl
    · exact ⟨{ name := "seal", index := 3 }, by decide, by decide⟩
    · rintro reference ⟨⟩
      exact ⟨"Summer", rfl⟩

/-- The notes are missing, but the text in place of the photo is reported. -/
theorem collage_not_reported_together :
    (∀ reference ∈ Deferred.collage.prompt, ∃ text,
      Resolve.promptContent .wall .drawer reference = .ok text) ∧
      (∃ reference ∈ Deferred.collage.references, reference.name ∉ Store.drawer.names) ∧
        Deferred.collage.resolve .wall .drawer ∅ "\n\n" ≠
          .error (.missingImages .wall .references
            (Deferred.collage.references.filter fun reference =>
              reference.name ∉ Store.drawer.names)) := by
  refine ⟨?_, ⟨{ name := "notes", index := 1 }, by decide, by decide⟩, ?_⟩
  · rintro reference ⟨⟩
    exact ⟨"Summer", rfl⟩
  · have refused : Deferred.collage.resolve .wall .drawer ∅ "\n\n" =
        .error (.unexpectedValue .wall "photo" "an image" "text data") := rfl
    rw [refused]
    simp

end Workflow
