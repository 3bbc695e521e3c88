import Workflow.Proofs.Inputs

/-!
# References and gathered inputs

Many wires may bring references to one node, or inputs to a collector.  What
they bring is said by `Extends` and `Gathers`: relations between what is there
before and after a list of wires, which the folds over the wires decide.
-/

namespace Workflow.Lowering

variable {arriving : List Wire}

def prompt (wire : Wire) : PromptRef :=
  ⟨wire.variable, wire.leaves.field?⟩

/-- The overlay that a wire brings, if it arrives at such a port. -/
def overlay? (wire : Wire) : Option ImageRef :=
  match wire.arrives with
  | .overlay index => some ⟨wire.variable, index⟩
  | _ => none

/-- The references that wires add to those before: at most one prompt, numbered
reference images, and overlays of which no two have one index. -/
structure Extends (start : Deferred) (arriving : List Wire) (result : Deferred) : Prop where
  prompt : result.prompt.toList =
    start.prompt.toList ++ (through (· = .text) arriving).map prompt
  references : result.references =
    start.references ++ (through (· = .references) arriving).mapIdx fun place wire =>
      ⟨wire.variable, start.references.length + place⟩
  overlays : result.overlays = start.overlays ++ arriving.filterMap overlay?
  distinct : (result.overlays.map ImageRef.index).Nodup
  offered : Offered TargetPort.isReference arriving

theorem Extends.unique {start result other : Deferred} (first : Extends start arriving result)
    (second : Extends start arriving other) : result = other := by
  have prompts : result.prompt = other.prompt := by
    have lists := first.prompt.trans second.prompt.symm
    cases firstPrompt : result.prompt <;> cases secondPrompt : other.prompt <;>
      simp_all
  have references := first.references.trans second.references.symm
  have overlays := first.overlays.trans second.overlays.symm
  cases result
  cases other
  simp_all

theorem Extends.append {start middle result : Deferred} {further : List Wire}
    (first : Extends start arriving middle) :
    Extends middle further result ↔ Extends start (arriving ++ further) result := by
  have lengths : middle.references.length =
      start.references.length + (through (· = .references) arriving).length := by
    simp [first.references]
  have shift : ∀ place, start.references.length +
      (place + (through (· = .references) arriving).length) =
        middle.references.length + place := by
    intro place
    omega
  constructor
  · intro second
    constructor
    · simp [second.prompt, first.prompt, through_append]
    · rw [second.references, first.references, through_append, List.mapIdx_append]
      simp only [shift, List.append_assoc]
      simp [first.references]
    · simp [second.overlays, first.overlays]
    · exact second.distinct
    · exact offered_append.mpr ⟨first.offered, second.offered⟩
  · intro whole
    constructor
    · simp [whole.prompt, first.prompt, through_append]
    · rw [whole.references, through_append, List.mapIdx_append, ← List.append_assoc,
        ← first.references]
      simp only [shift]
    · simp [whole.overlays, first.overlays]
    · exact whole.distinct
    · exact (offered_append.mp whole.offered).2

/-- Wires can extend references that leave room for their prompt and their
overlays. -/
theorem exists_extends {start : Deferred} :
    (∃ result, Extends start arriving result) ↔
      start.prompt.toList.length + (through (· = .text) arriving).length ≤ 1 ∧
        ((start.overlays ++ arriving.filterMap overlay?).map ImageRef.index).Nodup ∧
          Offered TargetPort.isReference arriving := by
  constructor
  · intro success
    obtain ⟨result, extended⟩ := success
    refine ⟨?_, extended.overlays ▸ extended.distinct, extended.offered⟩
    have lengths := congrArg List.length extended.prompt
    simp only [List.length_append, List.length_map] at lengths
    rw [← lengths]
    exact Option.length_toList_le
  · intro conditions
    obtain ⟨room, distinct, offered⟩ := conditions
    refine ⟨⟨(start.prompt.toList ++ (through (· = .text) arriving).map prompt).head?, _, _⟩,
      ?_, rfl, rfl, distinct, offered⟩
    have single : ∀ {prompts : List PromptRef}, prompts.length ≤ 1 →
        prompts.head?.toList = prompts := by
      intro prompts short
      rcases prompts with _ | ⟨first, _ | ⟨second, rest⟩⟩ <;> simp at short ⊢
    exact single (by simpa using room)

theorem addReference_extends {node : Node} {start next : Deferred} {wire : Wire}
    (distinct : (start.overlays.map ImageRef.index).Nodup)
    (added : addReference node start wire = .ok next) : Extends start [wire] next := by
  unfold addReference at added
  split at added
  · rename_i arrives
    split at added
    · simp at added
    · rename_i noPrompt
      simp only [Outcome.bind_eq_ok, Outcome.pure_eq_ok, sourceVariable_eq_ok] at added
      obtain ⟨_, ⟨offered, rfl⟩, rfl⟩ := added
      have free : start.prompt = none := by simpa using noPrompt
      constructor <;>
        simp [through, arrives, free, prompt, overlay?, distinct, Offered, offered]
  · rename_i arrives
    simp only [Outcome.bind_eq_ok, Outcome.pure_eq_ok, sourceVariable_eq_ok] at added
    obtain ⟨_, ⟨offered, rfl⟩, rfl⟩ := added
    constructor <;> simp [through, arrives, overlay?, distinct, Offered, offered]
  · rename_i index arrives
    split at added
    · simp at added
    · rename_i fresh
      simp only [Outcome.bind_eq_ok, Outcome.pure_eq_ok, sourceVariable_eq_ok] at added
      obtain ⟨_, ⟨offered, rfl⟩, rfl⟩ := added
      have unused : index ∉ start.overlays.map ImageRef.index := by simpa using fresh
      constructor
      · simp [through, arrives]
      · simp [through, arrives]
      · simp [overlay?, arrives]
      · simp only [List.map_append, List.map_cons, List.map_nil]
        exact List.nodup_append.mpr ⟨distinct, List.nodup_singleton _, by grind⟩
      · simp [through, arrives, Offered, offered]
  · rename_i notText notReferences notOverlay
    simp only [Except.ok.injEq] at added
    subst added
    cases arrives : wire.arrives with
    | text => exact absurd arrives notText
    | references => exact absurd arrives notReferences
    | overlay index => exact absurd arrives (notOverlay index)
    | default | image | base | context | candidates | selection | slot _ | other _ =>
        constructor <;>
          simp [through, arrives, overlay?, distinct, Offered, TargetPort.isReference]

theorem exists_addReference (node : Node) {start next : Deferred} {wire : Wire}
    (extended : Extends start [wire] next) :
    ∃ other, addReference node start wire = .ok other := by
  obtain ⟨room, free, offered⟩ := exists_extends.mp ⟨next, extended⟩
  have named : wire.arrives.isReference → sourceVariable wire = .ok wire.variable := by
    intro accepted
    exact sourceVariable_eq_ok.mpr ⟨offered wire (mem_through.mpr ⟨by simp, accepted⟩), rfl⟩
  cases arrives : wire.arrives with
  | text =>
      have noPrompt : start.prompt = none := by
        cases held : start.prompt <;> simp [held, through, arrives] at room ⊢
      simp [addReference, arrives, noPrompt, named (by simp [arrives, TargetPort.isReference])]
  | references =>
      simp [addReference, arrives, named (by simp [arrives, TargetPort.isReference])]
  | overlay index =>
      have fresh : ∀ overlay ∈ start.overlays, overlay.index ≠ index := by
        simp only [overlay?, arrives, List.filterMap_cons, List.filterMap_nil, List.map_append,
          List.map_cons, List.map_nil] at free
        intro overlay member
        exact (List.nodup_append.mp free).2.2 _ (List.mem_map_of_mem member) _
          (List.mem_singleton_self _)
      have unused : (start.overlays.any fun overlay => overlay.index = index) = false := by
        simpa using fresh
      simp [addReference, arrives, unused, named (by simp [arrives, TargetPort.isReference])]
  | default | image | base | context | candidates | selection | slot _ | other _ =>
      simp [addReference, arrives]

/-- One further wire is refused exactly if its prompt or its overlay is already
there, or if its source does not offer what it reads. -/
theorem addReference_eq_ok {node : Node} {start next : Deferred} {wire : Wire}
    (distinct : (start.overlays.map ImageRef.index).Nodup) :
    addReference node start wire = .ok next ↔ Extends start [wire] next := by
  refine ⟨addReference_extends distinct, ?_⟩
  intro extended
  obtain ⟨other, added⟩ := exists_addReference node extended
  rw [added, extended.unique (addReference_extends distinct added)]

theorem Extends.cons_iff {start result : Deferred} {wire : Wire} :
    Extends start (wire :: arriving) result ↔
      ∃ next, Extends start [wire] next ∧ Extends next arriving result := by
  constructor
  · intro whole
    obtain ⟨room, free, offered⟩ := exists_extends.mp ⟨result, whole⟩
    rw [← List.singleton_append] at room free offered
    rw [through_append, List.length_append] at room
    rw [List.filterMap_append, ← List.append_assoc, List.map_append] at free
    have firstRoom : ∃ next, Extends start [wire] next :=
      exists_extends.mpr ⟨by omega, (List.nodup_append.mp free).1, (offered_append.mp offered).1⟩
    obtain ⟨next, first⟩ := firstRoom
    exact ⟨next, first, first.append.mpr whole⟩
  · intro parts
    obtain ⟨next, first, rest⟩ := parts
    exact first.append.mp rest

theorem foldlM_addReference_eq_ok {node : Node} {start result : Deferred}
    (distinct : (start.overlays.map ImageRef.index).Nodup) :
    arriving.foldlM (addReference node) start = .ok result ↔ Extends start arriving result := by
  refine Outcome.foldlM_eq_ok (fun deferred => (deferred.overlays.map ImageRef.index).Nodup)
    ?_ addReference_eq_ok Extends.distinct Extends.cons_iff distinct
  intro start result distinct
  have unchanged : Extends start [] start := by
    constructor <;> simp [through, distinct, Offered]
  exact ⟨unchanged.unique, fun same => same ▸ unchanged⟩

theorem place_perm {key : α → Nat} {item : α} {items : List α} :
    (place key item items).Perm (item :: items) := by
  induction items with
  | nil => exact List.Perm.refl _
  | cons other items induction =>
      unfold place
      split
      · exact List.Perm.refl _
      · exact (induction.cons other).trans (List.Perm.swap item other items)

theorem ascending_perm {key : α → Nat} {items : List α} :
    (ascending key items).Perm items := by
  induction items with
  | nil => exact List.Perm.refl _
  | cons item items induction => exact place_perm.trans (induction.cons item)

/-- At most one edge brings a prompt, and no two bring overlays of one index. -/
structure Referenced (ports : List TargetPort) : Prop where
  prompt : ports.count .text ≤ 1
  overlays : ∀ index, ports.count (.overlay index) ≤ 1

theorem references_eq_ok {node : Node} {deferred : Deferred} :
    references node arriving = .ok deferred ↔
      ∃ listed, Extends {} arriving listed ∧
        { listed with overlays := ascending ImageRef.index listed.overlays } = deferred := by
  have empty : (({} : Deferred).overlays.map ImageRef.index).Nodup := List.nodup_nil
  simp [references, foldlM_addReference_eq_ok empty]

theorem count_overlay (index : Nat) :
    ((arriving.filterMap overlay?).map ImageRef.index).count index =
      (arriving.map Wire.arrives).count (.overlay index) := by
  induction arriving with
  | nil => rfl
  | cons wire arriving induction =>
      cases arrives : wire.arrives with
      | overlay other =>
          by_cases same : other = index <;> simp [overlay?, arrives, same, induction]
      | default | image | base | text | references | context | candidates | selection | slot _
      | other _ => simp [overlay?, arrives, induction]

theorem exists_references (node : Node) :
    (∃ deferred, references node arriving = .ok deferred) ↔
      Referenced (arriving.map Wire.arrives) ∧ Offered TargetPort.isReference arriving := by
  have succeeds : (∃ deferred, references node arriving = .ok deferred) ↔
      ∃ listed, Extends {} arriving listed := by
    simp only [references_eq_ok]
    constructor
    · intro success
      obtain ⟨_, listed, extended, -⟩ := success
      exact ⟨listed, extended⟩
    · intro conditions
      obtain ⟨listed, extended⟩ := conditions
      exact ⟨_, listed, extended, rfl⟩
  have prompts : (through (· = .text) arriving).length =
      (arriving.map Wire.arrives).count .text := by
    rw [length_through, List.count_eq_countP]
    rfl
  rw [succeeds, exists_extends, prompts, List.nil_append, List.nodup_iff_count_le_one]
  simp only [count_overlay, Option.toList_none, List.length_nil, Nat.zero_add]
  constructor
  · intro success
    obtain ⟨prompt, overlays, offered⟩ := success
    exact ⟨⟨prompt, overlays⟩, offered⟩
  · intro conditions
    obtain ⟨⟨prompt, overlays⟩, offered⟩ := conditions
    exact ⟨prompt, overlays, offered⟩

theorem overlay_names :
    (arriving.filterMap overlay?).map ImageRef.name =
      (through TargetPort.isOverlay arriving).map Wire.variable := by
  induction arriving with
  | nil => rfl
  | cons wire arriving induction =>
      simp only [through] at induction
      cases arrives : wire.arrives <;>
        simp [overlay?, through, TargetPort.isOverlay, arrives, induction]

theorem isReference_eq (port : TargetPort) :
    port.isReference =
      (decide (port = .text) || decide (port = .references) || port.isOverlay) := by
  cases port <;> simp [TargetPort.isReference, TargetPort.isOverlay]

/-- The references of a node name one variable for each wire at their ports. -/
theorem references_supplied {node : Node} {deferred : Deferred}
    (resolved : references node arriving = .ok deferred) :
    Supplied TargetPort.isReference arriving deferred.names := by
  obtain ⟨listed, extended, rfl⟩ := references_eq_ok.mp resolved
  refine ⟨?_, extended.offered⟩
  have prompts : listed.prompt.toList.map PromptRef.name =
      (through (· = .text) arriving).map Wire.variable := by
    simp [extended.prompt, Function.comp_def, prompt]
  have images : listed.references.map ImageRef.name =
      (through (· = .references) arriving).map Wire.variable := by
    rw [extended.references]
    exact List.ext_getElem (by simp) (by simp)
  have overlays : (ascending ImageRef.index listed.overlays).map ImageRef.name |>.Perm
      ((through TargetPort.isOverlay arriving).map Wire.variable) := by
    have unsorted : listed.overlays.map ImageRef.name =
        (through TargetPort.isOverlay arriving).map Wire.variable := by
      simp [extended.overlays, overlay_names]
    exact unsorted ▸ ascending_perm.map ImageRef.name
  have parts : (through (· = .text) arriving ++ through (· = .references) arriving ++
      through TargetPort.isOverlay arriving).Perm (through TargetPort.isReference arriving) := by
    have accepts : TargetPort.isReference = fun port =>
        decide (port = .text) || decide (port = .references) || port.isOverlay :=
      funext isReference_eq
    rw [accepts]
    refine ((through_or_perm ?_).append_right _).trans (through_or_perm ?_)
    · intro port isText isReferences
      simp only [decide_eq_true_eq] at isText isReferences
      simp [isText] at isReferences
    · intro port image
      simp only [Bool.or_eq_true, decide_eq_true_eq] at image
      rcases image with rfl | rfl <;> simp [TargetPort.isOverlay]
  have named := parts.map Wire.variable
  rw [List.map_append, List.map_append, ← prompts, ← images] at named
  exact (overlays.append_left _).trans named

/-- The slot of a wire and what it brings there, if it arrives at a slot. -/
def slotted? (wire : Wire) : Option (Nat × String) :=
  match wire.arrives with
  | .slot index => some (index, wire.variable)
  | _ => none

/-- The inputs that wires add to those before: those with a slot, of which no
two have one slot, and the others in their order. -/
structure Gathers (start : Gathered) (arriving : List Wire) (result : Gathered) : Prop where
  slotted : result.slotted = start.slotted ++ arriving.filterMap slotted?
  others : result.others =
    start.others ++ (through (fun port => !port.isSlot) arriving).map Wire.variable
  distinct : (result.slotted.map Prod.fst).Nodup
  offered : Offered (fun _ => true) arriving

theorem Gathers.unique {start result other : Gathered} (first : Gathers start arriving result)
    (second : Gathers start arriving other) : result = other := by
  have slotted := first.slotted.trans second.slotted.symm
  have others := first.others.trans second.others.symm
  cases result
  cases other
  simp_all

theorem Gathers.append {start middle result : Gathered} {further : List Wire}
    (first : Gathers start arriving middle) :
    Gathers middle further result ↔ Gathers start (arriving ++ further) result := by
  constructor
  · intro second
    constructor
    · simp [second.slotted, first.slotted]
    · simp [second.others, first.others, through_append]
    · exact second.distinct
    · exact offered_append.mpr ⟨first.offered, second.offered⟩
  · intro whole
    constructor
    · simp [whole.slotted, first.slotted]
    · simp [whole.others, first.others, through_append]
    · exact whole.distinct
    · exact (offered_append.mp whole.offered).2

theorem exists_gathers {start : Gathered} :
    (∃ result, Gathers start arriving result) ↔
      ((start.slotted ++ arriving.filterMap slotted?).map Prod.fst).Nodup ∧
        Offered (fun _ => true) arriving := by
  constructor
  · intro success
    obtain ⟨result, gathers⟩ := success
    exact ⟨gathers.slotted ▸ gathers.distinct, gathers.offered⟩
  · intro conditions
    obtain ⟨distinct, offered⟩ := conditions
    exact ⟨⟨_, _⟩, rfl, rfl, distinct, offered⟩

theorem gather_gathers {node : Node} {start next : Gathered} {wire : Wire}
    (distinct : (start.slotted.map Prod.fst).Nodup)
    (added : gather node start wire = .ok next) : Gathers start [wire] next := by
  simp only [gather, Outcome.bind_eq_ok, sourceVariable_eq_ok] at added
  obtain ⟨_, ⟨offered, rfl⟩, added⟩ := added
  split at added
  · rename_i index arrives
    split at added
    · simp at added
    · rename_i fresh
      simp only [Outcome.pure_eq_ok] at added
      subst added
      have unused : index ∉ start.slotted.map Prod.fst := by simpa using fresh
      constructor
      · simp [slotted?, arrives]
      · simp [through, arrives, TargetPort.isSlot]
      · simp only [List.map_append, List.map_cons, List.map_nil]
        exact List.nodup_append.mpr ⟨distinct, List.nodup_singleton _, by grind⟩
      · simp [through, Offered, offered]
  · rename_i notSlot
    simp only [Outcome.pure_eq_ok] at added
    subst added
    cases arrives : wire.arrives with
    | slot index => exact absurd arrives (notSlot index)
    | default | image | base | text | references | context | candidates | selection | overlay _
    | other _ =>
        constructor <;>
          simp [through, arrives, slotted?, TargetPort.isSlot, distinct, Offered, offered]

theorem exists_gather (node : Node) {start next : Gathered} {wire : Wire}
    (gathers : Gathers start [wire] next) : ∃ other, gather node start wire = .ok other := by
  obtain ⟨free, offered⟩ := exists_gathers.mp ⟨next, gathers⟩
  have named : sourceVariable wire = .ok wire.variable :=
    sourceVariable_eq_ok.mpr ⟨offered wire (mem_through.mpr ⟨by simp, rfl⟩), rfl⟩
  simp only [gather, Outcome.bind_eq_ok, named]
  cases arrives : wire.arrives with
  | slot index =>
      have fresh : ∀ entry ∈ start.slotted, entry.1 ≠ index := by
        simp only [slotted?, arrives, List.filterMap_cons, List.filterMap_nil, List.map_append,
          List.map_cons, List.map_nil] at free
        intro entry member
        exact (List.nodup_append.mp free).2.2 _ (List.mem_map_of_mem member) _
          (List.mem_singleton_self _)
      have unused : (start.slotted.any fun entry => entry.1 = index) = false := by
        simpa using fresh
      simp [unused]
  | default | image | base | text | references | context | candidates | selection | overlay _
  | other _ => simp

/-- One further wire is refused exactly if its slot is already taken, or if its
source does not offer what it reads. -/
theorem gather_eq_ok {node : Node} {start next : Gathered} {wire : Wire}
    (distinct : (start.slotted.map Prod.fst).Nodup) :
    gather node start wire = .ok next ↔ Gathers start [wire] next := by
  refine ⟨gather_gathers distinct, ?_⟩
  intro gathers
  obtain ⟨other, added⟩ := exists_gather node gathers
  rw [added, gathers.unique (gather_gathers distinct added)]

theorem Gathers.cons_iff {start result : Gathered} {wire : Wire} :
    Gathers start (wire :: arriving) result ↔
      ∃ next, Gathers start [wire] next ∧ Gathers next arriving result := by
  constructor
  · intro whole
    obtain ⟨free, offered⟩ := exists_gathers.mp ⟨result, whole⟩
    rw [← List.singleton_append] at free offered
    rw [List.filterMap_append, ← List.append_assoc, List.map_append] at free
    have firstRoom : ∃ next, Gathers start [wire] next :=
      exists_gathers.mpr ⟨(List.nodup_append.mp free).1, (offered_append.mp offered).1⟩
    obtain ⟨next, first⟩ := firstRoom
    exact ⟨next, first, first.append.mpr whole⟩
  · intro parts
    obtain ⟨next, first, rest⟩ := parts
    exact first.append.mp rest

theorem foldlM_gather_eq_ok {node : Node} {start result : Gathered}
    (distinct : (start.slotted.map Prod.fst).Nodup) :
    arriving.foldlM (gather node) start = .ok result ↔ Gathers start arriving result := by
  refine Outcome.foldlM_eq_ok (fun gathered => (gathered.slotted.map Prod.fst).Nodup)
    ?_ gather_eq_ok Gathers.distinct Gathers.cons_iff distinct
  intro start result distinct
  have unchanged : Gathers start [] start := by
    constructor <;> simp [through, distinct, Offered]
  exact ⟨unchanged.unique, fun same => same ▸ unchanged⟩

theorem count_slot (index : Nat) :
    ((arriving.filterMap slotted?).map Prod.fst).count index =
      (arriving.map Wire.arrives).count (.slot index) := by
  induction arriving with
  | nil => rfl
  | cons wire arriving induction =>
      cases arrives : wire.arrives with
      | slot other =>
          by_cases same : other = index <;> simp [slotted?, arrives, same, induction]
      | default | image | base | text | references | context | candidates | selection
      | overlay _ | other _ => simp [slotted?, arrives, induction]

theorem slotted_names :
    (arriving.filterMap slotted?).map Prod.snd =
      (through TargetPort.isSlot arriving).map Wire.variable := by
  induction arriving with
  | nil => rfl
  | cons wire arriving induction =>
      simp only [through] at induction
      cases arrives : wire.arrives <;>
        simp [slotted?, through, TargetPort.isSlot, arrives, induction]

theorem exists_gathered (node : Node) :
    (∃ gathered, arriving.foldlM (gather node) {} = .ok gathered) ↔
      (∀ index, (arriving.map Wire.arrives).count (.slot index) ≤ 1) ∧
        Offered (fun _ => true) arriving := by
  have empty : (({} : Gathered).slotted.map Prod.fst).Nodup := List.nodup_nil
  simp only [foldlM_gather_eq_ok empty, exists_gathers, List.nil_append,
    List.nodup_iff_count_le_one, count_slot]

theorem gathered_supplied {node : Node} {gathered : Gathered}
    (resolved : arriving.foldlM (gather node) {} = .ok gathered) :
    Supplied (fun _ => true) arriving gathered.inputs := by
  have empty : (({} : Gathered).slotted.map Prod.fst).Nodup := List.nodup_nil
  have gathers := (foldlM_gather_eq_ok empty).mp resolved
  refine ⟨?_, gathers.offered⟩
  have slotted : ((ascending Prod.fst gathered.slotted).map Prod.snd).Perm
      ((through TargetPort.isSlot arriving).map Wire.variable) := by
    have unsorted : gathered.slotted.map Prod.snd =
        (through TargetPort.isSlot arriving).map Wire.variable := by
      simp [gathers.slotted, slotted_names]
    exact unsorted ▸ ascending_perm.map Prod.snd
  have parts : (through TargetPort.isSlot arriving ++
      through (fun port => !port.isSlot) arriving).Perm (through (fun _ => true) arriving) := by
    refine (through_or_perm (by simp)).trans ?_
    simp only [Bool.or_not_self, List.Perm.refl]
  have named := parts.map Wire.variable
  rw [List.map_append] at named
  have others : gathered.others =
      (through (fun port => !port.isSlot) arriving).map Wire.variable := by
    simp [gathers.others]
  rw [Gathered.inputs, others]
  exact (slotted.append_right _).trans named

end Workflow.Lowering
