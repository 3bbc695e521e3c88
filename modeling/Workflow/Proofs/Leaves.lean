import Workflow.Proofs.Pictures

/-!
# What values say by their leaves

The text of a value joins the texts among its leaves with one newline between
neighbours, and its images are the images among them, however its lists are nested and
whatever else stands between.  A visit replaces the images from the first leaf to the
last and nothing else.  Two values have the same leaves if and only if one becomes the
other by wrapping values and by regrouping lists.
-/

namespace Workflow

namespace Text

variable {separator : String}

theorem join_eq_intercalate (texts : List String) :
    join separator texts = separator.intercalate texts := by
  fun_induction join separator texts with
  | case1 => rw [String.intercalate_nil]
  | case2 text => rw [String.intercalate_singleton]
  | case3 text rest several induction =>
      have filled : rest ≠ [] := by
        intro empty
        subst empty
        exact several rfl
      rw [String.intercalate_cons_of_ne_nil filled, induction]

/-- The texts with the separator between neighbours, if there is a text. -/
def joined? (separator : String) (texts : List String) : Option String :=
  if texts = [] then none else some (separator.intercalate texts)

theorem joined?_append (front back : List String) :
    joined? separator (front ++ back) =
      (joined? separator front).merge (fun a b => a ++ separator ++ b)
        (joined? separator back) := by
  by_cases noFront : front = []
  · simp [joined?, noFront]
  · by_cases noBack : back = []
    · simp [joined?, noBack]
    · simp [joined?, noFront, noBack, String.intercalate_append_of_ne_nil noFront noBack]

theorem joined?_toList (texts : List String) :
    joined? separator (joined? separator texts).toList = joined? separator texts := by
  by_cases empty : texts = []
  · simp [joined?, empty]
  · simp [joined?, empty]

end Text

def Leaf.text? : Leaf → Option String
  | image _ => none
  | text content => some content

/-- Visits the image, if the leaf is one. -/
def Leaf.visit (visit : σ → Image → Image × σ) : Leaf → StateM σ Leaf
  | image content => fun state => ((visit state content).map .image id)
  | text content => pure (.text content)

namespace Value

def texts (value : Value) : List String :=
  value.leaves.filterMap Leaf.text?

theorem textContent?_list (items : List Value) :
    (list items).textContent? = Text.joined? "\n" (itemTexts items) := by
  rw [textContent?, Text.joined?]
  split
  · rename_i none
    rw [if_pos none]
  · rename_i some
    rw [if_neg some, Text.join_eq_intercalate]

theorem itemTexts_cons (item : Value) (items : List Value) :
    itemTexts (item :: items) = item.textContent?.toList ++ itemTexts items := by
  rw [itemTexts]
  cases item.textContent? <;> rfl

mutual

theorem textContent?_eq (value : Value) :
    value.textContent? = Text.joined? "\n" value.texts := by
  cases value with
  | image content => rfl
  | data text => simp [textContent?, texts, leaves, Leaf.text?, Text.joined?]
  | list items => rw [textContent?_list, joined?_itemTexts, texts, leaves]

/-- The texts of the items say as much as the texts among the leaves of the items. -/
theorem joined?_itemTexts (items : List Value) :
    Text.joined? "\n" (itemTexts items) =
      Text.joined? "\n" ((itemLeaves items).filterMap Leaf.text?) := by
  cases items with
  | nil => rfl
  | cons item items =>
      rw [itemTexts_cons, itemLeaves, List.filterMap_append, Text.joined?_append,
        Text.joined?_append, joined?_itemTexts items, textContent?_eq item, Text.joined?_toList]
      rfl

end

section Visits

variable {σ : Type} (visit : σ → Image → Image × σ)

mutual

theorem visitImages_eq (value : Value) (state : σ) :
    (value.leaves.mapM (Leaf.visit visit)).run state =
      ((visitImages visit state value).1.leaves, (visitImages visit state value).2) := by
  cases value with
  | image content => rfl
  | data text => rfl
  | list items => exact visitItemImages_eq items state

theorem visitItemImages_eq (items : List Value) (state : σ) :
    ((itemLeaves items).mapM (Leaf.visit visit)).run state =
      (itemLeaves (visitItemImages visit state items).1,
        (visitItemImages visit state items).2) := by
  cases items with
  | nil => rfl
  | cons item items =>
      have rest := visitItemImages_eq items (visitImages visit state item).2
      rw [itemLeaves, List.mapM_append, StateT.run_bind, visitImages_eq item state]
      change ((itemLeaves items).mapM (Leaf.visit visit) >>= fun back => pure (_ ++ back)).run _ = _
      rw [StateT.run_bind, rest]
      rfl

end

end Visits

mutual

/-- A visit that changes nothing and notes what it sees comes past the images. -/
theorem visitImages_noting (value : Value) (seen : List Image) :
    visitImages (fun seen image => (image, seen ++ [image])) seen value =
      (value, seen ++ value.images) := by
  cases value with
  | image content => rfl
  | data text => simp [visitImages, images]
  | list items => simp [visitImages, images, visitItemImages_noting items]

theorem visitItemImages_noting (items : List Value) (seen : List Image) :
    visitItemImages (fun seen image => (image, seen ++ [image])) seen items =
      (items, seen ++ itemImages items) := by
  cases items with
  | nil => simp [visitItemImages, itemImages]
  | cons item items =>
      simp [visitItemImages, itemImages, visitImages_noting item, visitItemImages_noting items]

end

/-- One value becomes another by wrapping values and by regrouping lists, here or
anywhere inside. -/
inductive Regrouped : Value → Value → Prop
  | refl (value : Value) : Regrouped value value
  | symm {value other : Value} : Regrouped value other → Regrouped other value
  | trans {value other third : Value} :
      Regrouped value other → Regrouped other third → Regrouped value third
  | wrap (value : Value) : Regrouped value (.list [value])
  | group (before group after : List Value) :
      Regrouped (.list (before ++ .list group :: after)) (.list (before ++ group ++ after))
  | inside (before after : List Value) {item other : Value} :
      Regrouped item other →
        Regrouped (.list (before ++ item :: after)) (.list (before ++ other :: after))

theorem itemLeaves_append (before after : List Value) :
    itemLeaves (before ++ after) = itemLeaves before ++ itemLeaves after := by
  induction before with
  | nil => rfl
  | cons item items induction =>
      rw [List.cons_append, itemLeaves, itemLeaves, induction, List.append_assoc]

theorem Regrouped.leaves_eq {value other : Value} (regrouped : value.Regrouped other) :
    value.leaves = other.leaves := by
  induction regrouped with
  | refl value => rfl
  | symm _ induction => exact induction.symm
  | trans _ _ first second => exact first.trans second
  | wrap value => simp [leaves, itemLeaves]
  | group before group after => simp [leaves, itemLeaves, itemLeaves_append]
  | inside before after _ induction => simp [leaves, itemLeaves, itemLeaves_append, induction]

/-- A leaf as a value of its own. -/
def ofLeaf : Leaf → Value
  | .image content => .image content
  | .text content => .data content

mutual

theorem regrouped_flat (value : Value) :
    value.Regrouped (.list (value.leaves.map ofLeaf)) := by
  cases value with
  | image content => exact .wrap _
  | data text => exact .wrap _
  | list items => simpa [leaves] using regrouped_flatItems [] items

theorem regrouped_flatItems (before items : List Value) :
    Regrouped (.list (before ++ items)) (.list (before ++ (itemLeaves items).map ofLeaf)) := by
  cases items with
  | nil => exact .refl _
  | cons item items =>
      have here := (regrouped_flat item).inside before items
      have spread := Regrouped.group before (item.leaves.map ofLeaf) items
      have rest := regrouped_flatItems (before ++ item.leaves.map ofLeaf) items
      rw [List.append_assoc _ _ (List.map ofLeaf (itemLeaves items)), ← List.map_append] at rest
      exact .trans here (.trans spread rest)

end

theorem regrouped_iff {value other : Value} :
    value.Regrouped other ↔ value.leaves = other.leaves := by
  constructor
  · exact Regrouped.leaves_eq
  · intro same
    have flat := regrouped_flat value
    rw [same] at flat
    exact .trans flat (.symm (regrouped_flat other))

/-- The text of a value joins the texts among its leaves, and there is none without
them; its images are those among its leaves.  A visit comes past just these images, the
first one first, and replaces nothing else.  What a value says is thus the same for all
values with its leaves, which are those that it becomes by wrapping and regrouping. -/
theorem content_of_leaves (value : Value) :
    value.textContent? = Text.joined? "\n" value.texts ∧
      value.images = value.pictures ∧
      visitImages (fun seen image => (image, seen ++ [image])) [] value =
        (value, value.pictures) ∧
      (∀ {σ : Type} (visit : σ → Image → Image × σ) (state : σ),
        (value.leaves.mapM (Leaf.visit visit)).run state =
          ((visitImages visit state value).1.leaves, (visitImages visit state value).2)) ∧
      ∀ other : Value, (value.Regrouped other ↔ value.leaves = other.leaves) ∧
        (value.leaves = other.leaves →
          value.textContent? = other.textContent? ∧ value.images = other.images) := by
  refine ⟨textContent?_eq value, images_eq_pictures value, ?_,
    fun visit state => visitImages_eq visit value state, ?_⟩
  · rw [← images_eq_pictures]
    exact visitImages_noting value []
  · intro other
    refine ⟨regrouped_iff, ?_⟩
    intro same
    constructor
    · rw [textContent?_eq, textContent?_eq, texts, texts, same]
    · rw [images_eq_pictures, images_eq_pictures, pictures, pictures, same]

/-- Two pictures and two texts, the first of them empty, in lists with nothing in some
of them. -/
def frieze : Value :=
  .list [.list [], .data "", .list [.image { id := some "sea" }, .list [.data "spring"]],
    .list [.list [], .image { id := some "hill" }]]

/-- The frieze says what its leaves say in one list. -/
theorem frieze_content_of_leaves :
    frieze.leaves = (Value.list (frieze.leaves.map ofLeaf)).leaves ∧
      frieze.textContent? = some "\nspring" ∧
      (Value.list (frieze.leaves.map ofLeaf)).textContent? = some "\nspring" ∧
      (Value.list (frieze.leaves.map ofLeaf)).images = frieze.images := by
  have same : frieze.leaves = (Value.list (frieze.leaves.map ofLeaf)).leaves := rfl
  have said : frieze.textContent? = some "\nspring" := by decide
  obtain ⟨-, -, -, -, alike⟩ := content_of_leaves frieze
  obtain ⟨text, images⟩ := (alike (.list (frieze.leaves.map ofLeaf))).2 same
  exact ⟨same, said, text ▸ said, images.symm⟩

end Value

end Workflow
