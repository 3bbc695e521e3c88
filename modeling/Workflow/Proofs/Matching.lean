import Workflow.Proofs.Selection
import Workflow.Proofs.Trimming

/-!
# Selections by value

A router that selects by value takes the first candidates that are wanted.  `Answers`
tells what a selection asks for, and `First` tells by places which of several are taken.
A JSON value that is written as a text answers to itself, so that each item of an array
can be selected by its value.
-/

namespace Workflow

/-- A value is what a selection asks for: a text holds it as JSON or spells it, between
blanks or not, and an image has it as its name. -/
inductive Value.Answers : Value → Json → Prop where
  | held {text : String} {content target : Json} :
      Structured.ofText? text = some content → content.same target → Answers (.data text) target
  | spelled {text : String} {target : Json} :
      Text.trim text = Text.trim (Structured.text target) → Answers (.data text) target
  | named {image : Image} {name : String} :
      image.id = some name → Answers (.image image) (.string name)

/-- A candidate answers an item of an array, or else the selection itself. -/
def Flow.Wanted (content : Json) (candidate : Value) : Prop :=
  ∃ target ∈ targets content, candidate.Answers target

/-- The first items that are wanted, with their places: the places ascend, and an item
that is wanted and not taken stands behind all of them, where there is no room left. -/
structure First (Wanted : α → Prop) (items : List α) (room : Nat) (places : List Nat)
    (chosen : List α) : Prop where
  ascending : places.Pairwise (· < ·)
  few : places.length ≤ room
  taken : List.Forall₂ (fun place item => items[place]? = some item ∧ Wanted item) places chosen
  passed : ∀ place item, items[place]? = some item → Wanted item → place ∉ places →
    places.length = room ∧ ∀ earlier ∈ places, earlier < place

namespace Value

/-- What a text spells is compared as if both were trimmed, although only strings are. -/
theorem matchesSelection_data {text : String} {target : Json} :
    (data text).matchesSelection target ↔
      (∃ content, Structured.ofText? text = some content ∧ content.same target) ∨
        Text.trim text = Text.trim (Structured.text target) := by
  unfold matchesSelection
  rw [Bool.or_eq_true]
  refine or_congr ?_ ?_
  · cases Structured.ofText? text <;> simp
  · cases target with
    | string wanted => simp [Structured.text]
    | null | bool _ | number _ | array _ | object _ => simp [Structured.text, Json.trim_text]

theorem matchesSelection_image {image : Image} {target : Json} :
    (Value.image image).matchesSelection target ↔
      ∃ name, image.id = some name ∧ target = .string name := by
  unfold matchesSelection
  dsimp only
  split
  · rename_i name wanted named
    rw [named, beq_iff_eq]
    constructor
    · rintro rfl
      exact ⟨_, rfl, rfl⟩
    · rintro ⟨other, same, aimed⟩
      rw [Option.some.inj same, Json.string.inj aimed]
  · rename_i other
    constructor
    · intro never
      cases never
    · rintro ⟨name, named, rfl⟩
      exact absurd rfl (other name name named)

theorem matchesSelection_iff {value : Value} {target : Json} :
    value.matchesSelection target ↔ value.Answers target := by
  cases value with
  | data text =>
      rw [matchesSelection_data]
      constructor
      · rintro (⟨content, held, same⟩ | spells)
        · exact .held held same
        · exact .spelled spells
      · intro answers
        cases answers with
        | held held same => exact .inl ⟨_, held, same⟩
        | spelled spells => exact .inr spells
  | image image =>
      rw [matchesSelection_image]
      constructor
      · intro found
        obtain ⟨name, named, rfl⟩ := found
        exact .named named
      · intro answers
        cases answers with
        | named named => exact ⟨_, named, rfl⟩
  | list items =>
      constructor
      · intro matching
        cases matching
      · intro answers
        cases answers

theorem answers_ofJson (target : Json) : (ofJson target).Answers target :=
  .spelled rfl

end Value

namespace First

variable {Wanted : α → Prop} {item : α} {items chosen : List α} {room : Nat} {places : List Nat}

theorem pass (first : First Wanted items room places chosen) (unwanted : ¬Wanted item) :
    First Wanted (item :: items) room (places.map (· + 1)) chosen where
  ascending := by
    rw [List.pairwise_map]
    exact first.ascending.imp fun below => Nat.succ_lt_succ below
  few := by
    rw [List.length_map]
    exact first.few
  taken := by
    rw [List.forall₂_map_left_iff]
    exact first.taken
  passed := by
    intro place other here wanted notTaken
    cases place with
    | zero =>
        obtain rfl := Option.some.inj here
        exact absurd wanted unwanted
    | succ place =>
        have later : place ∉ places := by
          intro taken
          exact notTaken (List.mem_map_of_mem taken)
        obtain ⟨full, behind⟩ := first.passed place other here wanted later
        rw [List.length_map, List.forall_mem_map]
        exact ⟨full, fun earlier taken => Nat.succ_lt_succ (behind earlier taken)⟩

theorem take (first : First Wanted items room places chosen) (wanted : Wanted item) :
    First Wanted (item :: items) (room + 1) (0 :: places.map (· + 1)) (item :: chosen) where
  ascending := by
    refine List.pairwise_cons.mpr ⟨?_, ?_⟩
    · intro place member
      obtain ⟨_, -, rfl⟩ := List.mem_map.mp member
      exact Nat.succ_pos _
    · rw [List.pairwise_map]
      exact first.ascending.imp fun below => Nat.succ_lt_succ below
  few := by
    rw [List.length_cons, List.length_map]
    exact Nat.succ_le_succ first.few
  taken := by
    refine .cons ⟨rfl, wanted⟩ ?_
    rw [List.forall₂_map_left_iff]
    exact first.taken
  passed := by
    intro place other here isWanted notTaken
    cases place with
    | zero => exact absurd List.mem_cons_self notTaken
    | succ place =>
        have later : place ∉ places := by
          intro taken
          exact notTaken (List.mem_cons_of_mem 0 (List.mem_map_of_mem taken))
        obtain ⟨full, behind⟩ := first.passed place other here isWanted later
        rw [List.length_cons, List.length_map, List.forall_mem_cons, List.forall_mem_map]
        exact ⟨congrArg (· + 1) full, Nat.succ_pos place,
          fun earlier taken => Nat.succ_lt_succ (behind earlier taken)⟩

end First

/-- To keep what is wanted and then take as many as there is room for is to take the
first that are wanted. -/
theorem exists_first {Wanted : α → Prop} {test : α → Bool} (tests : ∀ item, test item ↔ Wanted item)
    (items : List α) (room : Nat) :
    ∃ places, First Wanted items room places ((items.filter test).take room) := by
  induction items generalizing room with
  | nil =>
      rw [List.filter_nil, List.take_nil]
      exact ⟨[], .nil, Nat.zero_le room, .nil, by simp⟩
  | cons item items induction =>
      by_cases wanted : test item
      · rw [List.filter_cons_of_pos wanted]
        cases room with
        | zero => exact ⟨[], .nil, Nat.le_refl 0, .nil, by simp⟩
        | succ room =>
            obtain ⟨places, first⟩ := induction room
            exact ⟨_, first.take ((tests item).mp wanted)⟩
      · rw [List.filter_cons_of_neg wanted]
        obtain ⟨places, first⟩ := induction room
        exact ⟨_, first.pass fun isWanted => wanted ((tests item).mpr isWanted)⟩

namespace Flow

variable {candidates : List Value} {count : Nat} {content : Json}

theorem wanted_iff (content : Json) (candidate : Value) :
    ((targets content).any fun target => candidate.matchesSelection target) ↔
      Wanted content candidate := by
  simp only [List.any_eq_true, Value.matchesSelection_iff, Wanted]

theorem byValue_first (candidates : List Value) (count : Nat) (content : Json) :
    ∃ places, First (Wanted content) candidates count places (byValue candidates count content) :=
  exists_first (wanted_iff content) candidates count

theorem byValue_sublist (candidates : List Value) (count : Nat) (content : Json) :
    (byValue candidates count content).Sublist candidates :=
  (List.take_sublist _ _).trans List.filter_sublist

theorem byValue_eq_nil (wide : 1 ≤ count) :
    byValue candidates count content = [] ↔
      ∀ candidate ∈ candidates, ¬Wanted content candidate := by
  rw [byValue, List.take_eq_nil_iff, or_iff_right (Nat.ne_of_gt wide), List.filter_eq_nil_iff]
  simp only [wanted_iff]

variable {scope : Scope} {store : Store} {step : RouterStep} {value : Value}

/-- A field that cannot be read is not the fault of a selection. -/
theorem context_ne_selection (index : Nat) (node reason : String) :
    context scope store step ≠ .error (.selection index node reason) := by
  intro failed
  unfold context at failed
  split at failed
  · rw [Outcome.map_eq_error] at failed
    simp only [Scope.field, Outcome.bind_eq_error] at failed
    rcases failed with unread | ⟨held, -, unstructured | ⟨found, -, missing⟩⟩
    · unfold Scope.read at unread
      split at unread <;> cases unread
    · unfold Scope.structured at unstructured
      split at unstructured <;> cases unstructured
    · unfold Scope.path at missing
      split at missing <;> cases missing
  · cases failed

theorem route_of_wanted (mode : step.selectionType = .value) (wide : 1 ≤ step.outputCount)
    (input : scope.read store step.input = .ok value)
    (selects : selection scope store step = .ok content)
    (wanted : ∃ candidate ∈ Flow.candidates value, Wanted content candidate) :
    ∃ places chosen output,
      First (Wanted content) (Flow.candidates value) step.outputCount places chosen ∧
      chosen.Sublist (Flow.candidates value) ∧
      1 ≤ chosen.length ∧ chosen.length ≤ step.outputCount ∧
      Shaped step.outputCount chosen output ∧
      route scope store step = (context scope store step).map ((step.out, output) :: ·) := by
  obtain ⟨places, first⟩ := byValue_first (Flow.candidates value) step.outputCount content
  have notEmpty : byValue (Flow.candidates value) step.outputCount content ≠ [] := by
    rw [Ne, byValue_eq_nil wide]
    push Not
    exact wanted
  have made : selected step (Flow.candidates value) content =
      .ok (byValue (Flow.candidates value) step.outputCount content) := by
    rw [selected, mode]
  have few := first.taken.length_eq ▸ first.few
  exact ⟨places, _, _, first, byValue_sublist _ _ _, List.length_pos_iff.mpr notEmpty, few,
    shaped_selectedValue notEmpty few, route_of_selected input selects made notEmpty⟩

end Flow

/-- A router that selects by value binds the first candidates that its selection wants, and
refuses exactly if it wants none of them.  An item of an array is wanted where it is
selected by its value, unless it is an array itself. -/
theorem RouterStep.route_by_value (step : RouterStep) (scope : Scope) (store : Store)
    {value : Value} {content : Json} (mode : step.selectionType = .value)
    (wide : 1 ≤ step.outputCount) (input : scope.read store step.input = .ok value)
    (selects : Flow.selection scope store step = .ok content) :
    ((∃ candidate ∈ Flow.candidates value, Flow.Wanted content candidate) →
      ∃ places chosen output,
        First (Flow.Wanted content) (Flow.candidates value) step.outputCount places chosen ∧
        chosen.Sublist (Flow.candidates value) ∧
        1 ≤ chosen.length ∧ chosen.length ≤ step.outputCount ∧
        Flow.Shaped step.outputCount chosen output ∧
        Flow.route scope store step =
          (Flow.context scope store step).map ((step.out, output) :: ·)) ∧
    ((∃ index node reason, Flow.route scope store step = .error (.selection index node reason)) ↔
      ∀ candidate ∈ Flow.candidates value, ¬Flow.Wanted content candidate) ∧
    (∀ text items, value = .data text → Structured.ofText? text = some (.array items) →
      content ∈ items → (∀ inner, content ≠ .array inner) →
        ∃ output, Flow.route scope store step =
          (Flow.context scope store step).map ((step.out, output) :: ·)) ∧
    (∀ candidate target, Value.matchesSelection candidate target ↔ candidate.Answers target) ∧
    ∀ target, (Value.ofJson target).matchesSelection target := by
  have routes := Flow.route_of_wanted mode wide input selects
  refine ⟨routes, ⟨?_, ?_⟩, ?_, fun _ _ => Value.matchesSelection_iff,
    fun target => Value.matchesSelection_iff.mpr (Value.answers_ofJson target)⟩
  · intro refused candidate member wanted
    obtain ⟨index, node, reason, refused⟩ := refused
    obtain ⟨-, -, output, -, -, -, -, -, routed⟩ := routes ⟨candidate, member, wanted⟩
    rw [routed, Outcome.map_eq_error] at refused
    exact Flow.context_ne_selection index node reason refused
  · intro unwanted
    obtain ⟨reason, refused⟩ := Flow.route_of_unselected input selects (by
      intro chosen made
      rw [Flow.selected, mode] at made
      obtain rfl := Except.ok.inj made
      exact (Flow.byValue_eq_nil wide).mpr unwanted)
    exact ⟨_, _, reason, refused⟩
  · rintro text items rfl holds member notArray
    have offered : Flow.candidates (.data text) = items.map Value.ofJson := by
      simp only [Flow.candidates, holds]
    have single : Flow.targets content = [content] := by
      cases content with
      | array inner => exact absurd rfl (notArray inner)
      | null | bool _ | number _ | string _ | object _ => rfl
    have wanted : ∃ candidate ∈ Flow.candidates (.data text), Flow.Wanted content candidate := by
      rw [offered]
      refine ⟨.ofJson content, List.mem_map_of_mem member, content, ?_, ?_⟩
      · rw [single]
        exact List.mem_cons_self
      · exact Value.answers_ofJson content
    obtain ⟨-, -, output, -, -, -, -, -, routed⟩ := routes wanted
    exact ⟨output, routed⟩

/-- Two of the woods that are wished for. -/
def RouterStep.shortlist : RouterStep where
  input := "woods"
  selectionInput := "wishes"
  selectionType := .value
  outputCount := 2
  out := "shortlist"

/-- The woods, some of them by number, and what is wished for. -/
def Store.wished (wishes : String) : Store :=
  ⟨[("woods", .data "[\"oak\", 3, null, \" pine \", 3]"), ("wishes", .data wishes)]⟩

/-- Of three woods that are wished for the first two are taken.  A wood without a name can
be wished for like any other, but a wood that is not there is refused. -/
theorem RouterStep.shortlist_route :
    let scope : Scope := (Step.router shortlist).scope 2
    let woods : List Value := [.data "oak", .data "3", .data "null", .data " pine ", .data "3"]
    (∃ places chosen output,
      First (Flow.Wanted (.array [.string "pine", .number (.int 3)])) woods 2 places chosen ∧
      chosen.Sublist woods ∧ 1 ≤ chosen.length ∧ chosen.length ≤ 2 ∧
      Flow.Shaped 2 chosen output ∧
      Flow.route scope (.wished "[\"pine\", 3]") shortlist =
        (Flow.context scope (.wished "[\"pine\", 3]") shortlist).map
          (("shortlist", output) :: ·)) ∧
    (∃ output, Flow.route scope (.wished "null") shortlist =
      (Flow.context scope (.wished "null") shortlist).map (("shortlist", output) :: ·)) ∧
    ∃ index node reason,
      Flow.route scope (.wished "elm") shortlist = .error (.selection index node reason) := by
  intro scope woods
  have offered : Flow.candidates (.data "[\"oak\", 3, null, \" pine \", 3]") = woods := by
    decide +kernel
  have holds : Structured.ofText? "[\"oak\", 3, null, \" pine \", 3]" =
      some (.array [.string "oak", .number (.int 3), .null, .string " pine ",
        .number (.int 3)]) := by
    decide +kernel
  refine ⟨?_, ?_, ?_⟩
  · have selects : Flow.selection scope (.wished "[\"pine\", 3]") shortlist =
        .ok (.array [.string "pine", .number (.int 3)]) := by
      decide +kernel
    obtain ⟨taken, -⟩ := shortlist.route_by_value scope (.wished "[\"pine\", 3]") rfl (by decide)
      rfl selects
    rw [offered] at taken
    apply taken
    exact ⟨woods[1], List.getElem_mem _, .number (.int 3),
      List.mem_cons_of_mem _ List.mem_cons_self, Value.answers_ofJson (.number (.int 3))⟩
  · have selects : Flow.selection scope (.wished "null") shortlist = .ok .null := by
      decide +kernel
    obtain ⟨-, -, listed, -⟩ := shortlist.route_by_value scope (.wished "null") rfl (by decide)
      rfl selects
    exact listed _ _ rfl holds (by simp) nofun
  · have selects : Flow.selection scope (.wished "elm") shortlist = .ok (.string "elm") := by
      decide +kernel
    obtain ⟨-, refused, -⟩ := shortlist.route_by_value scope (.wished "elm") rfl (by decide)
      rfl selects
    rw [offered] at refused
    have none : Flow.byValue woods 2 (.string "elm") = [] := by
      decide +kernel
    exact refused.mpr ((Flow.byValue_eq_nil (by decide)).mp none)

end Workflow
