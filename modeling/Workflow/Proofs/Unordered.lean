import Mathlib.Data.List.Sort
import Workflow.Proofs.Lowering

/-!
# What lowering takes from the order of wires

A node is lowered from its arriving wires, which come in the order of the edges.
Of that order only two parts matter: how reference images follow each other, and
how the wires of a collector that arrive at no slot do.  Everything else is found
by its port, or put in ascending order.
-/

namespace Workflow

open Lowering

/-- A wire without the place of its edge. -/
def Wire.unplaced (wire : Wire) : Wire :=
  { wire with index := 0 }

namespace Lowering

variable {node : Node} {arriving others : List Wire}

theorem singleInput?_unplaced (accepts : TargetPort → Bool) (port : String) :
    singleInput? node (arriving.map Wire.unplaced) accepts port =
      singleInput? node arriving accepts port := by
  have ports : (arriving.map Wire.unplaced).filter (fun wire => accepts wire.arrives) =
      (arriving.filter fun wire => accepts wire.arrives).map Wire.unplaced := by
    rw [List.filter_map]
    rfl
  unfold singleInput?
  rw [ports]
  generalize (arriving.filter fun wire => accepts wire.arrives) = matching
  rcases matching with _ | ⟨first, _ | ⟨second, rest⟩⟩ <;> rfl

theorem singleInput_unplaced (accepts : TargetPort → Bool) (port message : String) :
    singleInput node (arriving.map Wire.unplaced) accepts port message =
      singleInput node arriving accepts port message := by
  simp only [singleInput, singleInput?_unplaced]

theorem references_unplaced :
    references node (arriving.map Wire.unplaced) = references node arriving := by
  simp only [references, List.foldlM_map]
  rfl

theorem collect_unplaced :
    collect node (arriving.map Wire.unplaced) = collect node arriving := by
  simp only [collect, List.foldlM_map, List.isEmpty_map]
  rfl

/-- The same wires, where the reference images follow each other as before, and
so do the wires of a collector that arrive at no slot. -/
structure Rearranged (kind : NodeKind) (arriving others : List Wire) : Prop where
  perm : arriving.Perm others
  references : through (· = .references) arriving = through (· = .references) others
  collected : kind = .collect →
    through (fun port => !port.isSlot) arriving = through (fun port => !port.isSlot) others

theorem Rearranged.symm {kind : NodeKind} (rearranged : Rearranged kind arriving others) :
    Rearranged kind others arriving where
  perm := rearranged.perm.symm
  references := rearranged.references.symm
  collected isCollect := (rearranged.collected isCollect).symm

theorem through_perm (accepts : TargetPort → Bool) (permutation : arriving.Perm others) :
    (through accepts arriving).Perm (through accepts others) :=
  permutation.filter _

theorem offered_perm {accepts : TargetPort → Bool} (permutation : arriving.Perm others)
    (offered : Offered accepts arriving) : Offered accepts others := by
  intro wire atPort
  exact offered wire ((through_perm accepts permutation).mem_iff.mpr atPort)

theorem Supplied.rearranged {accepts : TargetPort → Bool} {names : List String}
    (supplied : Supplied accepts arriving names) (permutation : arriving.Perm others) :
    Supplied accepts others names where
  perm := supplied.perm.trans ((through_perm accepts permutation).map Wire.variable)
  offered := offered_perm permutation supplied.offered

theorem place_pairwise {key : α → Nat} {item : α} {items : List α}
    (sorted : items.Pairwise fun a b => key a ≤ key b) :
    (place key item items).Pairwise fun a b => key a ≤ key b := by
  induction items with
  | nil => exact List.pairwise_singleton _ _
  | cons other rest induction =>
      obtain ⟨least, restSorted⟩ := List.pairwise_cons.mp sorted
      by_cases first : key item ≤ key other
      · simp only [place, first, if_true, List.pairwise_cons, List.forall_mem_cons, true_and]
        exact ⟨fun later member => first.trans (least later member), least, restSorted⟩
      · simp only [place, first, if_false, List.pairwise_cons]
        refine ⟨?_, induction restSorted⟩
        intro later member
        rcases List.mem_cons.mp (place_perm.mem_iff.mp member) with rfl | inRest
        · omega
        · exact least later inRest

theorem ascending_pairwise {key : α → Nat} (items : List α) :
    (ascending key items).Pairwise fun a b => key a ≤ key b := by
  induction items with
  | nil => exact List.Pairwise.nil
  | cons item items induction => exact place_pairwise induction

theorem ascending_strict {key : α → Nat} {items : List α} (distinct : (items.map key).Nodup) :
    (ascending key items).Pairwise fun a b => key a < key b := by
  have different : (ascending key items).Pairwise fun a b => key a ≠ key b :=
    List.pairwise_map.mp ((ascending_perm.map key).nodup_iff.mpr distinct)
  refine ((ascending_pairwise items).and different).imp ?_
  intro a b ordered
  exact lt_of_le_of_ne ordered.1 ordered.2

/-- Items with distinct keys have one ascending order. -/
theorem ascending_eq_of_perm {key : α → Nat} {items others : List α}
    (permutation : items.Perm others) (distinct : (items.map key).Nodup) :
    ascending key items = ascending key others := by
  have all : (ascending key items).Perm (ascending key others) :=
    ascending_perm.trans (permutation.trans ascending_perm.symm)
  refine all.eq_of_pairwise ?_ (ascending_pairwise items) (ascending_pairwise others)
  intro a b aMember bMember below above
  exact List.inj_on_of_nodup_map distinct (ascending_perm.mem_iff.mp aMember)
    (permutation.mem_iff.mpr (ascending_perm.mem_iff.mp bMember)) (le_antisymm below above)

theorem references_rearranged {kind : NodeKind} {deferred : Deferred}
    (rearranged : Rearranged kind arriving others)
    (resolved : references node arriving = .ok deferred) :
    references node others = .ok deferred := by
  obtain ⟨listed, extended, rfl⟩ := references_eq_ok.mp resolved
  have prompts : listed.prompt.toList.Perm ((through (· = .text) others).map prompt) := by
    rw [extended.prompt]
    exact (through_perm _ rearranged.perm).map prompt
  have overlays : listed.overlays.Perm (others.filterMap overlay?) := by
    rw [extended.overlays]
    exact rearranged.perm.filterMap overlay?
  have rearrangedExtends : Extends {} others
      { listed with overlays := others.filterMap overlay? } := by
    constructor
    · cases found : listed.prompt with
      | none =>
          rw [found] at prompts
          exact (List.nil_perm.mp prompts).symm
      | some reference =>
          rw [found] at prompts
          exact List.singleton_perm.mp prompts
    · rw [extended.references, rearranged.references]
    · rfl
    · exact (overlays.map ImageRef.index).nodup_iff.mp extended.distinct
    · exact offered_perm rearranged.perm extended.offered
  refine references_eq_ok.mpr ⟨_, rearrangedExtends, ?_⟩
  simp only [ascending_eq_of_perm overlays extended.distinct]

theorem gathered_rearranged {gathered : Gathered}
    (rearranged : Rearranged .collect arriving others)
    (resolved : arriving.foldlM (gather node) {} = .ok gathered) :
    ∃ again, others.foldlM (gather node) {} = .ok again ∧ again.inputs = gathered.inputs := by
  have empty : (({} : Gathered).slotted.map Prod.fst).Nodup := List.nodup_nil
  have gathers := (foldlM_gather_eq_ok empty).mp resolved
  have slotted : gathered.slotted.Perm (others.filterMap slotted?) := by
    rw [gathers.slotted]
    exact rearranged.perm.filterMap slotted?
  refine ⟨{ gathered with slotted := others.filterMap slotted? }, ?_, ?_⟩
  · rw [foldlM_gather_eq_ok empty]
    constructor
    · rfl
    · rw [gathers.others, rearranged.collected rfl]
    · exact (slotted.map Prod.fst).nodup_iff.mp gathers.distinct
    · exact offered_perm rearranged.perm gathers.offered
  · simp only [Gathered.inputs, ascending_eq_of_perm slotted gathers.distinct]

end Lowering

theorem Node.lower_unplaced (node : Node) (arriving : List Wire) :
    node.lower (arriving.map Wire.unplaced) = node.lower arriving := by
  unfold Node.lower
  simp only [generate, transform, save, vision, text, fanOut, router, singleInput?_unplaced,
    singleInput_unplaced, references_unplaced, collect_unplaced]

namespace Node

variable {node : Node} {arriving others : List Wire} {step : Step}

theorem Lowers.rearranged (lowers : node.Lowers arriving step)
    (rearranged : Rearranged node.kind arriving others) : node.Lowers others step := by
  have permutation := rearranged.perm
  cases lowers with
  | generate kind provider resolved =>
      exact .generate kind provider (references_rearranged rearranged resolved)
  | transform kind provider image resolved =>
      exact .transform kind provider (image.rearranged permutation)
        (references_rearranged rearranged resolved)
  | save kind supplied => exact .save kind (supplied.rearranged permutation)
  | vision kind found images contexts inputs resolved =>
      exact .vision kind found (images.rearranged permutation) (contexts.rearranged permutation)
        inputs (references_rearranged rearranged resolved)
  | text kind found contexts resolved =>
      exact .text kind found (contexts.rearranged permutation)
        (references_rearranged rearranged resolved)
  | fanOut kind supplied chosen counted property =>
      exact .fanOut kind (supplied.rearranged permutation) chosen counted property
  | collect kind resolved notEmpty chosen =>
      rw [kind] at rearranged
      obtain ⟨again, gathered, same⟩ := gathered_rearranged rearranged resolved
      have stillSome : others ≠ [] := by
        rintro rfl
        exact notEmpty permutation.eq_nil
      rw [← same]
      exact .collect kind gathered stillSome chosen
  | router kind candidates selection chosen counted =>
      exact .router kind (candidates.rearranged permutation) (selection.rearranged permutation)
        chosen counted

theorem Lowers.lower_eq (lowers : node.Lowers arriving step) :
    node.lower arriving = .ok (some step) := by
  unfold Node.lower
  cases lowers with
  | generate kind provider resolved =>
      simp [kind, Lowering.generate, provider, resolved]
  | transform kind provider image resolved =>
      simp [kind, Lowering.transform, provider, singleInput_eq_ok.mpr image, resolved]
  | save kind supplied =>
      simp [kind, Lowering.save, singleInput_eq_ok.mpr supplied]
  | vision kind found images contexts inputs resolved =>
      simp [kind, Lowering.vision, found, singleInput?_eq_ok.mpr images,
        singleInput?_eq_ok.mpr contexts, inputs, resolved]
  | text kind found contexts resolved =>
      simp [kind, Lowering.text, found, singleInput?_eq_ok.mpr contexts, resolved]
  | fanOut kind supplied chosen counted property =>
      simp [kind, Lowering.fanOut, singleInput_eq_ok.mpr supplied, chosen,
        slotCount_eq_ok.mpr counted, property]
  | collect kind resolved notEmpty chosen =>
      simp [kind, Lowering.collect, resolved, notEmpty, chosen]
  | router kind candidates selection chosen counted =>
      simp [kind, Lowering.router, singleInput_eq_ok.mpr candidates,
        singleInput_eq_ok.mpr selection, chosen, counted]

theorem lower_rearranged {lowered : Option Step}
    (rearranged : Rearranged node.kind (arriving.map Wire.unplaced) (others.map Wire.unplaced))
    (made : node.lower arriving = .ok lowered) : node.lower others = .ok lowered := by
  cases lowered with
  | none => exact lower_of_input (lower_eq_none made)
  | some step =>
      rw [← lower_unplaced] at made ⊢
      exact ((lowers_of_lower made).rearranged rearranged).lower_eq

end Node

end Workflow
