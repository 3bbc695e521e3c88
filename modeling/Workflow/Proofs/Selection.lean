import Mathlib.Data.List.Forall2
import Workflow.Proofs.Handles
import Workflow.Proofs.Turn
import Workflow.Proofs.Wiring
import Workflow.Run.Script

/-!
# Selections by index

A router that selects by index takes neighbours from a single index on, or one candidate
for each item of an array.  `Admits` tells when there is something to take, by sums of
natural numbers alone, and `Picks` tells what is taken.  A selection that is not admitted
is refused, and nothing is bound.
-/

namespace Workflow

/-- The value names an index: it is a whole number, or a text that writes one between
blanks. -/
inductive Json.Indexes : Json → Nat → Prop where
  | number (index : Nat) : Indexes (.number (.int index)) index
  | text {text : String} {index : Nat} :
      Text.Writes (Text.trimChars text.toList) index → Indexes (.string text) index

namespace Flow

/-- There is something to select: as many neighbours as are wanted from a single index on,
or a candidate for each item of an array that counts. -/
inductive Admits (available count : Nat) : Json → Prop where
  | neighbours {content : Json} {start : Nat} :
      content.Indexes start → 1 ≤ count → start + count ≤ available →
      Admits available count content
  | listed {items : List Json} :
      1 ≤ count → items ≠ [] →
      (∀ item ∈ items.take count, ∃ place, item.Indexes place ∧ place < available) →
      Admits available count (.array items)

/-- The selection takes these candidates, in this order. -/
inductive Picks (candidates : List Value) (count : Nat) : Json → List Value → Prop where
  | neighbours {content : Json} {start : Nat} {chosen : List Value} :
      content.Indexes start → chosen.length = count →
      (∀ offset < count, chosen[offset]? = candidates[start + offset]?) →
      Picks candidates count content chosen
  | listed {items : List Json} {chosen : List Value} :
      List.Forall₂ (fun item candidate =>
        ∃ place, item.Indexes place ∧ candidates[place]? = some candidate)
        (items.take count) chosen →
      Picks candidates count (.array items) chosen

/-- One candidate is bound as such where one is wanted, and a list of them where any other
number is. -/
inductive Shaped : Nat → List Value → Value → Prop where
  | bare (candidate : Value) : Shaped 1 [candidate] candidate
  | list {count : Nat} {chosen : List Value} : count ≠ 1 → Shaped count chosen (.list chosen)

variable {candidates chosen : List Value} {count : Nat} {content : Json}

theorem index?_eq_some {place : Nat} : index? content = some place ↔ content.Indexes place := by
  constructor
  · intro named
    cases content with
    | number value =>
        cases value with
        | int value =>
            simp only [index?, Number.natural?, Option.ite_none_right_eq_some,
              Option.some.injEq] at named
            obtain ⟨positive, rfl⟩ := named
            obtain ⟨index, rfl⟩ := Int.eq_ofNat_of_zero_le positive
            exact .number index
        | double value => cases named
    | string text =>
        apply Json.Indexes.text
        apply Text.naturalChars?_eq_some.mp
        simpa [index?, Text.natural?, Text.trim] using named
    | null | bool _ | array _ | object _ => cases named
  · intro named
    cases named with
    | number => simp [index?, Number.natural?]
    | text writes =>
        simpa [index?, Text.natural?, Text.trim] using Text.naturalChars?_eq_some.mpr writes

/-- What the items of an array name is looked up in the order of the items. -/
theorem atPlaces_places_eq_ok {items : List Json} :
    (places items >>= atPlaces candidates) = .ok chosen ↔
      List.Forall₂ (fun item candidate =>
        ∃ place, item.Indexes place ∧ candidates[place]? = some candidate) items chosen := by
  simp only [← index?_eq_some]
  induction items generalizing chosen with
  | nil =>
      rw [List.forall₂_nil_left_iff]
      exact ⟨fun made => (Except.ok.inj made).symm, fun none => none ▸ rfl⟩
  | cons item items induction =>
      rw [List.forall₂_cons_left_iff]
      cases named : index? item with
      | none => simp [places, named]
      | some place =>
          cases found : candidates[place]? with
          | none => simp [places, named, atPlaces, found]
          | some candidate =>
              have first : (places (item :: items) >>= atPlaces candidates) =
                  (places items >>= atPlaces candidates).map (candidate :: ·) := by
                simp only [places, named, Outcome.bind_map, atPlaces, found, Outcome.map_bind]
              rw [first, Outcome.map_eq_ok]
              constructor
              · intro made
                obtain ⟨rest, restMade, rfl⟩ := made
                exact ⟨candidate, rest, ⟨place, rfl, found⟩, induction.mp restMade, rfl⟩
              · intro parts
                obtain ⟨other, rest, ⟨_, ⟨⟩, there⟩, restNamed, rfl⟩ := parts
                obtain rfl : candidate = other := Option.some.inj (found.symm.trans there)
                exact ⟨rest, induction.mpr restNamed, rfl⟩

theorem exists_forall₂ {related : α → β → Prop} {lefts : List α}
    (each : ∀ left ∈ lefts, ∃ right, related left right) :
    ∃ rights, List.Forall₂ related lefts rights := by
  induction lefts with
  | nil => exact ⟨[], .nil⟩
  | cons left lefts induction =>
      obtain ⟨right, here⟩ := each left List.mem_cons_self
      obtain ⟨rights, rest⟩ := induction fun other member =>
        each other (List.mem_cons_of_mem left member)
      exact ⟨right :: rights, .cons here rest⟩

theorem byIndex_of_indexes {start : Nat} (named : content.Indexes start) :
    byIndex candidates count content = .ok chosen ↔
      start + count ≤ candidates.length ∧ (candidates.drop start).take count = chosen := by
  have index := index?_eq_some.mpr named
  cases named with
  | number | text =>
      by_cases fits : start + count ≤ candidates.length
      · simp [byIndex, index, fits]
      · simp [byIndex, index, fits]

theorem length_neighbours {start : Nat} (fits : start + count ≤ candidates.length) :
    ((candidates.drop start).take count).length = count := by
  rw [List.length_take, List.length_drop]
  omega

theorem picks_neighbours {start : Nat} (named : content.Indexes start)
    (fits : start + count ≤ candidates.length) :
    Picks candidates count content ((candidates.drop start).take count) := by
  apply Picks.neighbours named (length_neighbours fits)
  intro offset within
  rw [List.getElem?_take_of_lt within, List.getElem?_drop]

/-- The sum of two whole numbers of 64 bits, if it has no more bits. -/
def checkedAdd? (first second : UInt64) : Option UInt64 :=
  if first ≤ first + second then some (first + second) else none

theorem checkedAdd?_eq_some {first second sum : UInt64} :
    checkedAdd? first second = some sum ↔ first.toNat + second.toNat = sum.toNat := by
  have firstFits := first.toNat_lt
  have secondFits := second.toNat_lt
  have sumFits := sum.toNat_lt
  rw [checkedAdd?, Option.ite_none_right_eq_some, UInt64.le_iff_toNat_le, Option.some.injEq,
    ← UInt64.toNat_inj, UInt64.toNat_add]
  omega

theorem checkedAdd?_eq_none {first second : UInt64} :
    checkedAdd? first second = none ↔ Text.naturalLimit ≤ first.toNat + second.toNat := by
  have firstFits := first.toNat_lt
  have secondFits := second.toNat_lt
  change checkedAdd? first second = none ↔ 2 ^ 64 ≤ first.toNat + second.toNat
  rw [checkedAdd?, ite_eq_right_iff, UInt64.le_iff_toNat_le, UInt64.toNat_add]
  simp only [reduceCtorEq, imp_false]
  omega

/-- The candidates from a start up to an end, in the arithmetic of 64 bits.  An end that is
no number of 64 bits is out of range, like any other beyond the candidates. -/
def neighbours? (candidates : List Value) (start count : UInt64) : Option (List Value) :=
  match checkedAdd? start count with
  | some stop =>
      if stop ≤ UInt64.ofNat candidates.length then
        some ((candidates.take stop.toNat).drop start.toNat)
      else none
  | none => none

/-- On a machine whose lists have lengths of 64 bits, neighbours are found by their sum as
natural numbers. -/
theorem neighbours?_eq_some {start count : UInt64}
    (addressable : candidates.length < Text.naturalLimit) :
    neighbours? candidates start count = some chosen ↔
      start.toNat + count.toNat ≤ candidates.length ∧
        (candidates.drop start.toNat).take count.toNat = chosen := by
  have length : (UInt64.ofNat candidates.length).toNat = candidates.length :=
    UInt64.toNat_ofNat_of_lt' addressable
  unfold neighbours?
  cases sum : checkedAdd? start count with
  | some stop =>
      have exact := checkedAdd?_eq_some.mp sum
      simp only [Option.ite_none_right_eq_some, UInt64.le_iff_toNat_le, length, ← exact,
        Option.some.injEq, List.take_drop]
  | none =>
      have overflows := checkedAdd?_eq_none.mp sum
      simp only [reduceCtorEq, false_iff, not_and]
      omega

theorem lt_limit_of_indexes {start : Nat} (held : content.Canonical)
    (named : content.Indexes start) : start < Text.naturalLimit := by
  cases named with
  | number => exact Int.ofNat_lt.mp held.2
  | text writes => exact writes.limit

/-- The sum of natural numbers stands for the sum that is checked for more than 64 bits:
for every selection of a document it selects the same. -/
theorem byIndex_eq_neighbours? {start : Nat} (held : content.Canonical)
    (named : content.Indexes start) (fits : count < Text.naturalLimit)
    (addressable : candidates.length < Text.naturalLimit) :
    byIndex candidates count content = .ok chosen ↔
      neighbours? candidates (.ofNat start) (.ofNat count) = some chosen := by
  rw [byIndex_of_indexes named, neighbours?_eq_some addressable,
    UInt64.toNat_ofNat_of_lt' (lt_limit_of_indexes held named), UInt64.toNat_ofNat_of_lt' fits]

/-- An end of more than 64 bits does not come round to the first candidates. -/
example : neighbours? [.data "gold", .data "silver"] 18446744073709551615 2 = none := by
  decide

/-- What is admitted is selected: one candidate at least, and no more than are wanted. -/
theorem exists_byIndex (admitted : Admits candidates.length count content) :
    ∃ chosen, byIndex candidates count content = .ok chosen ∧
      Picks candidates count content chosen ∧ chosen ≠ [] ∧ chosen.length ≤ count := by
  cases admitted with
  | @neighbours _ start named wanted fits =>
      refine ⟨_, (byIndex_of_indexes named).mpr ⟨fits, rfl⟩, picks_neighbours named fits, ?_, ?_⟩
      · rw [← List.length_pos_iff, length_neighbours fits]
        exact wanted
      · exact (length_neighbours fits).le
  | @listed items wanted notEmpty each =>
      have looked : ∀ item ∈ items.take count, ∃ candidate, ∃ place,
          item.Indexes place ∧ candidates[place]? = some candidate := by
        intro item member
        obtain ⟨place, named, within⟩ := each item member
        exact ⟨candidates[place], place, named, List.getElem?_eq_getElem within⟩
      obtain ⟨chosen, found⟩ := exists_forall₂ looked
      have many : chosen.length = min count items.length := by
        rw [← found.length_eq, List.length_take]
      refine ⟨chosen, atPlaces_places_eq_ok.mpr found, .listed found, ?_, ?_⟩
      · rw [← List.length_pos_iff, many]
        exact Nat.lt_min.mpr ⟨wanted, List.length_pos_iff.mpr notEmpty⟩
      · rw [many]
        exact Nat.min_le_left count items.length

theorem byIndex_eq_ok_cases (made : byIndex candidates count content = .ok chosen) :
    (∃ items, content = .array items) ∨ ∃ start, content.Indexes start := by
  unfold byIndex at made
  split at made
  · exact .inl ⟨_, rfl⟩
  · split at made
    · cases made
    · exact .inr ⟨_, index?_eq_some.mp ‹_›⟩

/-- What is selected is admitted, unless nothing is selected. -/
theorem admits_of_byIndex (made : byIndex candidates count content = .ok chosen)
    (some : chosen ≠ []) : Admits candidates.length count content := by
  rcases byIndex_eq_ok_cases made with ⟨items, rfl⟩ | ⟨start, named⟩
  · have found := atPlaces_places_eq_ok.mp made
    have many : 0 < min count items.length := by
      rw [← List.length_take, found.length_eq]
      exact List.length_pos_iff.mpr some
    obtain ⟨wanted, notEmpty⟩ := Nat.lt_min.mp many
    apply Admits.listed wanted (List.length_pos_iff.mp notEmpty)
    intro item member
    obtain ⟨candidate, -, place, named, there⟩ :=
      Wiring.exists_mem_of_forall₂ found.flip member
    exact ⟨place, named, (List.getElem?_eq_some_iff.mp there).1⟩
  · obtain ⟨fits, rfl⟩ := (byIndex_of_indexes named).mp made
    apply Admits.neighbours named _ fits
    rw [← length_neighbours fits]
    exact List.length_pos_iff.mpr some

theorem shaped_selectedValue (some : chosen ≠ []) (few : chosen.length ≤ count) :
    Shaped count chosen (selectedValue count chosen) := by
  by_cases one : count = 1
  · subst one
    obtain ⟨candidate, rfl⟩ := List.length_eq_one_iff.mp
      (le_antisymm few (List.length_pos_iff.mpr some))
    exact .bare candidate
  · have list : selectedValue count chosen = .list chosen := by
      unfold selectedValue
      split
      · exact absurd rfl one
      · rfl
    rw [list]
    exact .list one

variable {scope : Scope} {store : Store} {step : RouterStep} {value : Value}

theorem route_of_selected (input : scope.read store step.input = .ok value)
    (selects : selection scope store step = .ok content)
    (made : selected step (Flow.candidates value) content = .ok chosen) (some : chosen ≠ []) :
    route scope store step = (context scope store step).map
      ((step.out, selectedValue step.outputCount chosen) :: ·) := by
  unfold route
  simp only [input, selects, made, bind, Except.bind]
  cases chosen with
  | nil => exact absurd rfl some
  | cons first rest => rfl

theorem route_of_unselected (input : scope.read store step.input = .ok value)
    (selects : selection scope store step = .ok content)
    (none : ∀ chosen, selected step (Flow.candidates value) content = .ok chosen → chosen = []) :
    ∃ reason, route scope store step = .error (.selection scope.index step.out reason) := by
  unfold route
  simp only [input, selects, bind, Except.bind]
  cases made : selected step (Flow.candidates value) content with
  | error reason => exact ⟨reason, rfl⟩
  | ok chosen =>
      rw [none chosen made]
      exact ⟨_, rfl⟩

theorem selected_of_index (mode : step.selectionType = .index) (candidates : List Value)
    (content : Json) :
    selected step candidates content = byIndex candidates step.outputCount content := by
  rw [selected, mode]

theorem route_of_chosen (mode : step.selectionType = .index)
    (input : scope.read store step.input = .ok value)
    (selects : selection scope store step = .ok content)
    (made : byIndex (Flow.candidates value) step.outputCount content = .ok chosen)
    (some : chosen ≠ []) :
    route scope store step = (context scope store step).map
      ((step.out, selectedValue step.outputCount chosen) :: ·) :=
  route_of_selected input selects ((selected_of_index mode _ _).trans made) some

theorem route_of_none (mode : step.selectionType = .index)
    (input : scope.read store step.input = .ok value)
    (selects : selection scope store step = .ok content)
    (none : ∀ chosen, byIndex (Flow.candidates value) step.outputCount content = .ok chosen →
      chosen = []) :
    ∃ reason, route scope store step = .error (.selection scope.index step.out reason) := by
  apply route_of_unselected input selects
  intro chosen made
  rw [selected_of_index mode] at made
  exact none chosen made

end Flow

namespace Run

variable {config : RunConfig} {host : Host σ} {index : Nat} {step : Step}
  {start after : Progress σ} {error : RunError}

theorem Turn.store_of_refused {result : Except RunError Unit}
    (turn : Turn config host index step start result after)
    (refused : outcome config (host.answer start.host) index start.store step = .error error) :
    result = .error error ∧ after.store = start.store := by
  cases turn with
  | completed made _ | clashed made _ _ =>
      rw [refused] at made
      cases made
  | failed fails =>
      rw [refused] at fails
      exact ⟨congrArg _ (Except.error.inj fails).symm, rfl⟩

end Run

/-- A router that selects by index binds what its selection picks, if the selection is
admitted; if not, it says why it refuses and binds nothing. -/
theorem RouterStep.route_by_index (step : RouterStep) (config : RunConfig) (host : Host σ)
    (index : Nat) (progress : Progress σ) {value : Value} {content : Json}
    (mode : step.selectionType = .index)
    (input : ((Step.router step).scope index).read progress.store step.input = .ok value)
    (selects : Flow.selection ((Step.router step).scope index) progress.store step =
      .ok content) :
    (Flow.Admits (Flow.candidates value).length step.outputCount content →
      ∃ chosen output, Flow.Picks (Flow.candidates value) step.outputCount content chosen ∧
        Flow.Shaped step.outputCount chosen output ∧
        Flow.route ((Step.router step).scope index) progress.store step =
          (Flow.context ((Step.router step).scope index) progress.store step).map
            ((step.out, output) :: ·)) ∧
      (¬Flow.Admits (Flow.candidates value).length step.outputCount content →
        ∃ reason, Flow.route ((Step.router step).scope index) progress.store step =
            .error (.selection index step.out reason) ∧
          (Run.runStep config host index (.router step) progress).1 =
            .error (.selection index step.out reason) ∧
          (Run.runStep config host index (.router step) progress).2.store = progress.store) := by
  constructor
  · intro admitted
    obtain ⟨chosen, made, picked, some, few⟩ := Flow.exists_byIndex admitted
    exact ⟨chosen, _, picked, Flow.shaped_selectedValue some few,
      Flow.route_of_chosen mode input selects made some⟩
  · intro notAdmitted
    have none : ∀ chosen, Flow.byIndex (Flow.candidates value) step.outputCount content =
        .ok chosen → chosen = [] := by
      intro chosen made
      by_contra some
      exact notAdmitted (Flow.admits_of_byIndex made some)
    obtain ⟨reason, refused⟩ := Flow.route_of_none mode input selects none
    have fails : Run.outcome config (host.answer progress.host) index progress.store
        (.router step) = .error (.selection index step.out reason) := by
      simp only [Run.outcome, Run.action, refused, Except.map]
      rfl
    exact ⟨reason, refused, (Run.runStep_turn _ _ _ _ _).store_of_refused fails⟩

/-- The two best designs. -/
def RouterStep.podium : RouterStep where
  input := "designs"
  selectionInput := "ranking"
  selectionType := .index
  outputCount := 2
  out := "podium"

def Value.designs : Value :=
  .list [.data "oak", .data "pine"]

/-- The designs and what the jury says of them. -/
def Progress.judged (ranking : String) : Progress Token where
  store := ⟨[("designs", .designs), ("ranking", .data ranking)]⟩
  host := {}

/-- The second design is named twice, or a design that would lie beyond all numbers. -/
theorem RouterStep.podium_route :
    (∃ chosen output,
      Flow.Picks (Flow.candidates .designs) 2
        (.array [.string " +01 ", .number (.int 1), .null]) chosen ∧
      Flow.Shaped 2 chosen output ∧
      Flow.route ((Step.router podium).scope 3)
          (Progress.judged "[\" +01 \", 1, null]").store podium =
        (Flow.context ((Step.router podium).scope 3)
          (Progress.judged "[\" +01 \", 1, null]").store podium).map
            ((podium.out, output) :: ·)) ∧
      ∃ reason, Flow.route ((Step.router podium).scope 3)
          (Progress.judged "18446744073709551615").store podium =
        .error (.selection 3 "podium" reason) := by
  have reads : ∀ ranking, ((Step.router podium).scope 3).read (Progress.judged ranking).store
      "designs" = .ok .designs :=
    fun _ => rfl
  constructor
  · have selects : Flow.selection ((Step.router podium).scope 3)
        (Progress.judged "[\" +01 \", 1, null]").store podium =
          .ok (.array [.string " +01 ", .number (.int 1), .null]) := by
      decide +kernel
    apply (podium.route_by_index {} (Script.host ({} : Script).reply ∅) 3 _ rfl (reads _)
      selects).1
    apply Flow.Admits.listed (by decide) (by simp)
    intro item member
    rcases List.mem_pair.mp member with rfl | rfl
    · exact ⟨1, Flow.index?_eq_some.mp (by decide), by decide⟩
    · exact ⟨1, .number 1, by decide⟩
  · have selects : Flow.selection ((Step.router podium).scope 3)
        (Progress.judged "18446744073709551615").store podium =
          .ok (.number (.int 18446744073709551615)) := by
      decide +kernel
    have far : ¬Flow.Admits 2 2 (.number (.int 18446744073709551615)) := by
      intro admitted
      cases admitted with
      | neighbours named _ fits =>
          have first := Flow.index?_eq_some.mpr named
          simp only [Flow.index?, Number.natural?, Option.ite_none_right_eq_some,
            Option.some.injEq] at first
          omega
    obtain ⟨reason, refused, -⟩ := (podium.route_by_index {}
      (Script.host ({} : Script).reply ∅) 3 _ rfl (reads _) selects).2 far
    exact ⟨reason, refused⟩

end Workflow
