import Workflow.Proofs.Trimming

/-!
# What handles name

The handles of each port, as a grammar of the text without the blanks around it: the
default port has no text or one of its names, an overlay or a slot a number in brackets
behind a name, a field the path behind `output.`, and a text that is none of these names
a port of its own.  A handle is read as a port if and only if the port is spelt so.
-/

namespace Workflow

namespace Text

theorem trim_trim (text : String) : trim (trim text) = trim text :=
  trim_ofList (trimmed_trimChars text.toList)

end Text

namespace Port

open Text

variable {names : List String} {text : String} {index : Nat}

/-- One of the names in front of brackets, with a number between them that may have
blanks around it. -/
def Bracketed (names : List String) (text : String) (index : Nat) : Prop :=
  ∃ name ∈ names, ∃ inside, text = name ++ "[" ++ inside ++ "]" ∧
    Writes (trim inside).toList index

theorem index?_eq_some_iff {name : String} :
    index? name text.toList = some index ↔
      ∃ inside, text = name ++ "[" ++ inside ++ "]" ∧ Writes (trim inside).toList index := by
  simp only [index?, Option.bind_eq_bind, Option.bind_eq_some_iff, after?_eq_some,
    bracketed?_eq_some, naturalChars?_eq_some, trim, String.toList_ofList]
  constructor
  · intro read
    obtain ⟨_, spelt, inside, rfl, writes⟩ := read
    refine ⟨String.ofList inside, ?_, by rwa [String.toList_ofList]⟩
    apply String.toList_injective
    simpa using spelt
  · intro spelt
    obtain ⟨inside, rfl, writes⟩ := spelt
    exact ⟨_, by simp, inside.toList, rfl, writes⟩

theorem indexAmong?_eq_some_iff (plain : ∀ name ∈ names, Plain name) :
    indexAmong? names text.toList = some index ↔ Bracketed names text index := by
  rw [indexAmong?_eq_some plain]
  simp only [← index?_eq_some, index?_eq_some_iff]
  rfl

theorem Bracketed.ne_empty (bracketed : Bracketed names text index) : text ≠ "" := by
  obtain ⟨name, -, inside, rfl, -⟩ := bracketed
  simp

theorem indexAmong?_eq_none_iff (plain : ∀ name ∈ names, Plain name) :
    indexAmong? names text.toList = none ↔ ∀ index, ¬Bracketed names text index := by
  simp only [Option.eq_none_iff_forall_ne_some, ne_eq, indexAmong?_eq_some_iff plain]

theorem Bracketed.trim_eq (plain : ∀ name ∈ names, Plain name)
    (bracketed : Bracketed names text index) : trim text = text := by
  have found := (indexAmong?_eq_some_iff plain).mpr bracketed
  obtain ⟨name, member, indexed⟩ := (indexAmong?_eq_some plain).mp found
  have trimmed := trim_ofList (indexed.trimmed (plain name member))
  rwa [String.ofList_toList] at trimmed

theorem bracketed_toString {name opening : String} (member : name ∈ names)
    (opens : opening = name ++ "[") (limit : index < naturalLimit) :
    Bracketed names (opening ++ toString index ++ "]") index := by
  have writes := writes_toDigits limit
  refine ⟨name, member, toString index, by rw [opens], ?_⟩
  rw [Nat.toString_eq_ofList_toDigits, trim_ofList writes.trimmed, String.toList_ofList]
  exact writes

end Port

open Port

namespace TargetPort

variable {handle text : String} {port : TargetPort} {index : Nat}

/-- The texts that name ports without a number. -/
def fixedNames : List String :=
  ["", "default", "input", "in", "image", "base", "text", "prompt", "references", "reference",
    "context", "candidates", "selection"]

/-- The trimmed handles of a port. -/
def Spelt (text : String) : TargetPort → Prop
  | default => text ∈ ["", "default", "input", "in"]
  | image => text = "image"
  | base => text = "base"
  | .text => text ∈ ["text", "prompt"]
  | references => text ∈ ["references", "reference"]
  | context => text = "context"
  | candidates => text = "candidates"
  | selection => text = "selection"
  | overlay index => Bracketed ["overlays", "overlay"] text index
  | slot index => Bracketed ["in", "inputs"] text index
  | other handle => handle = text ∧ text ∉ fixedNames ∧
      ∀ index, ¬Bracketed ["overlays", "overlay"] text index ∧
        ¬Bracketed ["in", "inputs"] text index

theorem ofHandle_some (handle : String) :
    ofHandle (some handle) =
      if Text.trim handle = "" then default else ofTrimmed (Text.trim handle) := by
  simp [ofHandle, String.isEmpty_iff]

theorem spelt_ofTrimmed (filled : text ≠ "") : (ofTrimmed text).Spelt text := by
  unfold ofTrimmed
  split
  case h_13 =>
    cases overlays : indexAmong? ["overlays", "overlay"] text.toList with
    | some index => exact (indexAmong?_eq_some_iff plain_overlays).mp overlays
    | none =>
        cases slots : indexAmong? ["in", "inputs"] text.toList with
        | some index => exact (indexAmong?_eq_some_iff plain_slots).mp slots
        | none =>
            refine ⟨rfl, by simp_all [fixedNames], fun index => ⟨?_, ?_⟩⟩
            · exact (indexAmong?_eq_none_iff plain_overlays).mp overlays index
            · exact (indexAmong?_eq_none_iff plain_slots).mp slots index
  all_goals simp [Spelt]

theorem ofTrimmed_eq_other (unfixed : text ∉ fixedNames)
    (overlays : ∀ index, ¬Bracketed ["overlays", "overlay"] text index)
    (slots : ∀ index, ¬Bracketed ["in", "inputs"] text index) : ofTrimmed text = other text := by
  unfold ofTrimmed
  split
  case h_13 =>
    rw [(indexAmong?_eq_none_iff plain_overlays).mpr overlays,
      (indexAmong?_eq_none_iff plain_slots).mpr slots]
  all_goals exact absurd (by decide) unfixed

theorem ofHandle_eq_iff_spelt :
    ofHandle (some handle) = port ↔ port.Spelt (Text.trim handle) := by
  rw [ofHandle_some]
  generalize Text.trim handle = text
  constructor
  · intro named
    subst named
    split
    · rename_i empty
      simp [Spelt, empty]
    · rename_i filled
      exact spelt_ofTrimmed filled
  · intro spelt
    cases port with
    | default =>
        have known : ∀ text ∈ ["", "default", "input", "in"],
            (if text = "" then default else ofTrimmed text) = default := by
          decide
        exact known text spelt
    | text =>
        have known : ∀ text ∈ ["text", "prompt"],
            (if text = "" then default else ofTrimmed text) = .text := by
          decide
        exact known text spelt
    | references =>
        have known : ∀ text ∈ ["references", "reference"],
            (if text = "" then default else ofTrimmed text) = references := by
          decide
        exact known text spelt
    | image | base | context | candidates | selection =>
        cases spelt
        rfl
    | overlay index =>
        rw [if_neg (Bracketed.ne_empty spelt), ofTrimmed_eq_overlay]
        exact (indexAmong?_eq_some_iff plain_overlays).mpr spelt
    | slot index =>
        rw [if_neg (Bracketed.ne_empty spelt), ofTrimmed_eq_slot]
        exact (indexAmong?_eq_some_iff plain_slots).mpr spelt
    | other handle =>
        obtain ⟨rfl, unfixed, unindexed⟩ := spelt
        have filled : handle ≠ "" := by
          intro empty
          subst empty
          exact unfixed (by decide)
        rw [if_neg filled]
        exact ofTrimmed_eq_other unfixed (fun index => (unindexed index).1)
          fun index => (unindexed index).2

end TargetPort

namespace SourcePort

variable {handle text : String} {port : SourcePort} {index : Nat}

/-- The texts that name ports without a number or a path. -/
def fixedNames : List String :=
  ["", "default", "output", "out", "context"]

/-- The trimmed handles of a port. -/
def Spelt (text : String) : SourcePort → Prop
  | default => text ∈ ["", "default", "output", "out"]
  | context => text = "context"
  | field path => path ≠ "" ∧ text = "output." ++ path
  | slot index => Bracketed ["out", "output"] text index
  | other handle => handle = text ∧ text ∉ fixedNames ∧
      (∀ path, path ≠ "" → text ≠ "output." ++ path) ∧
      ∀ index, ¬Bracketed ["out", "output"] text index

theorem plain_slots : ∀ name ∈ ["out", "output"], Plain name := by
  unfold Plain
  decide

theorem ofHandle_some (handle : String) :
    ofHandle (some handle) =
      if Text.trim handle = "" then default else ofTrimmed (Text.trim handle) := by
  simp [ofHandle, String.isEmpty_iff]

theorem after?_output {path : List Char} :
    after? "output.".toList text.toList = some path ↔ text = "output." ++ String.ofList path := by
  rw [after?_eq_some, ← String.toList_inj]
  simp

theorem exists_cons_of_ne_empty {path : String} (filled : path ≠ "") :
    ∃ c rest, path = String.ofList (c :: rest) := by
  cases written : path.toList with
  | nil => exact absurd (String.toList_eq_nil_iff.mp written) filled
  | cons c rest => exact ⟨c, rest, by rw [← written, String.ofList_toList]⟩

theorem ofTrimmed_eq_field {path : String} (filled : path ≠ "") :
    ofTrimmed ("output." ++ path) = field path := by
  obtain ⟨c, rest, rfl⟩ := exists_cons_of_ne_empty filled
  unfold ofTrimmed
  split
  case h_5 => rw [after?_output.mpr rfl]
  all_goals
    rename_i short
    simpa using congrArg String.toList short

theorem ne_field_of_bracketed (bracketed : Bracketed ["out", "output"] text index)
    (path : String) : text ≠ "output." ++ path := by
  obtain ⟨name, member, inside, rfl, -⟩ := bracketed
  intro behind
  have chars := congrArg String.toList behind
  simp only [List.mem_cons, List.not_mem_nil, or_false] at member
  rcases member with rfl | rfl <;> simp at chars

theorem ofTrimmed_eq_slot (bracketed : Bracketed ["out", "output"] text index) :
    ofTrimmed text = slot index := by
  have found := (indexAmong?_eq_some_iff plain_slots).mpr bracketed
  unfold ofTrimmed
  split
  case h_5 =>
    split
    · rename_i c path behind
      exact absurd (after?_output.mp behind) (ne_field_of_bracketed bracketed _)
    · rw [found]
  all_goals exact absurd found (indexAmong?_ne_some (by decide))

theorem ofTrimmed_eq_other (unfixed : text ∉ fixedNames)
    (pathless : ∀ path, path ≠ "" → text ≠ "output." ++ path)
    (unindexed : ∀ index, ¬Bracketed ["out", "output"] text index) :
    ofTrimmed text = other text := by
  unfold ofTrimmed
  split
  case h_5 =>
    split
    · rename_i c path behind
      exact absurd (after?_output.mp behind) (pathless _ (by simp))
    · rw [(indexAmong?_eq_none_iff plain_slots).mpr unindexed]
  all_goals exact absurd (by decide) unfixed

theorem spelt_ofTrimmed (filled : text ≠ "") : (ofTrimmed text).Spelt text := by
  unfold ofTrimmed
  split
  case h_5 =>
    split
    · rename_i c path behind
      exact ⟨by simp, after?_output.mp behind⟩
    · rename_i pathless
      cases slots : indexAmong? ["out", "output"] text.toList with
      | some index => exact (indexAmong?_eq_some_iff plain_slots).mp slots
      | none =>
          refine ⟨rfl, by simp_all [fixedNames], ?_,
            (indexAmong?_eq_none_iff plain_slots).mp slots⟩
          intro path filled behind
          obtain ⟨c, rest, rfl⟩ := exists_cons_of_ne_empty filled
          exact pathless c rest (after?_output.mpr behind)
  all_goals simp [Spelt]

theorem ofHandle_eq_iff_spelt :
    ofHandle (some handle) = port ↔ port.Spelt (Text.trim handle) := by
  rw [ofHandle_some]
  generalize Text.trim handle = text
  constructor
  · intro named
    subst named
    split
    · rename_i empty
      simp [Spelt, empty]
    · rename_i filled
      exact spelt_ofTrimmed filled
  · intro spelt
    cases port with
    | default =>
        have known : ∀ text ∈ ["", "default", "output", "out"],
            (if text = "" then default else ofTrimmed text) = default := by
          decide
        exact known text spelt
    | context =>
        cases spelt
        rfl
    | field path =>
        obtain ⟨filled, rfl⟩ := spelt
        rw [if_neg (by simp), ofTrimmed_eq_field filled]
    | slot index => rw [if_neg (Bracketed.ne_empty spelt), ofTrimmed_eq_slot spelt]
    | other handle =>
        obtain ⟨rfl, unfixed, pathless, unindexed⟩ := spelt
        have filled : handle ≠ "" := by
          intro empty
          subst empty
          exact unfixed (by decide)
        rw [if_neg filled, ofTrimmed_eq_other unfixed pathless unindexed]

end SourcePort

namespace Port

open Text

/-- What stands between the blanks at both ends of a handle tells its ports: one of the
targets and one of the sources is spelt so, and no other.  Blanks around a handle make
no difference, and every index has a handle with just its digits in brackets. -/
theorem handles_name_ports (handle : String) :
    (∃ before after, handle.toList = before ++ (trim handle).toList ++ after ∧
      Blank before ∧ Blank after ∧ Trimmed (trim handle).toList) ∧
    (∀ port, TargetPort.ofHandle (some handle) = port ↔ port.Spelt (trim handle)) ∧
    (∀ port, SourcePort.ofHandle (some handle) = port ↔ port.Spelt (trim handle)) ∧
    (∃! port : TargetPort, port.Spelt (trim handle)) ∧
    (∃! port : SourcePort, port.Spelt (trim handle)) ∧
    TargetPort.ofHandle (some (trim handle)) = TargetPort.ofHandle (some handle) ∧
    SourcePort.ofHandle (some (trim handle)) = SourcePort.ofHandle (some handle) ∧
    ∀ index < naturalLimit,
      TargetPort.ofHandle (some ("in[" ++ toString index ++ "]")) = .slot index ∧
      TargetPort.ofHandle (some ("overlays[" ++ toString index ++ "]")) = .overlay index ∧
      SourcePort.ofHandle (some ("out[" ++ toString index ++ "]")) = .slot index := by
  refine ⟨?_, fun port => TargetPort.ofHandle_eq_iff_spelt,
    fun port => SourcePort.ofHandle_eq_iff_spelt, ?_, ?_, ?_, ?_, ?_⟩
  · obtain ⟨before, after, surrounded, blankBefore, blankAfter⟩ :=
      exists_surroundings handle.toList
    rw [trim, String.toList_ofList]
    exact ⟨before, after, surrounded, blankBefore, blankAfter, trimmed_trimChars _⟩
  · simp only [← TargetPort.ofHandle_eq_iff_spelt]
    exact existsUnique_eq'
  · simp only [← SourcePort.ofHandle_eq_iff_spelt]
    exact existsUnique_eq'
  · rw [TargetPort.ofHandle_some, TargetPort.ofHandle_some, trim_trim]
  · rw [SourcePort.ofHandle_some, SourcePort.ofHandle_some, trim_trim]
  · intro index limit
    have slot : Bracketed ["in", "inputs"] ("in[" ++ toString index ++ "]") index :=
      bracketed_toString List.mem_cons_self (by decide) limit
    have overlay : Bracketed ["overlays", "overlay"] ("overlays[" ++ toString index ++ "]") index :=
      bracketed_toString List.mem_cons_self (by decide) limit
    have output : Bracketed ["out", "output"] ("out[" ++ toString index ++ "]") index :=
      bracketed_toString List.mem_cons_self (by decide) limit
    simp only [TargetPort.ofHandle_eq_iff_spelt, SourcePort.ofHandle_eq_iff_spelt,
      slot.trim_eq TargetPort.plain_slots, overlay.trim_eq TargetPort.plain_overlays,
      output.trim_eq SourcePort.plain_slots]
    exact ⟨slot, overlay, output⟩

/-- A handle with blanks around it and around its number, which has a plus and leading
zeros, names the seventh overlay; the greatest index has a handle, too. -/
theorem spaced_handle_names_overlay :
    TargetPort.ofHandle (some "\u3000overlay[ +007\u00a0]\t") = .overlay 7 ∧
      SourcePort.ofHandle (some "out[18446744073709551615]") = .slot 18446744073709551615 := by
  have writes : Writes (trim " +007\u00a0").toList 7 :=
    ⟨by decide, ['+'], ['0', '0', '7'], by decide, .inr rfl, by simp, by simp [isDigit],
      by decide⟩
  have spelt : Bracketed ["overlays", "overlay"] (trim "\u3000overlay[ +007\u00a0]\t") 7 :=
    ⟨"overlay", by simp, " +007\u00a0", by decide, writes⟩
  obtain ⟨-, targets, -⟩ := handles_name_ports "\u3000overlay[ +007\u00a0]\t"
  obtain ⟨-, -, -, -, -, -, -, canonical⟩ := handles_name_ports ""
  exact ⟨(targets (.overlay 7)).mpr spelt, (canonical 18446744073709551615 (by decide)).2.2⟩

end Port

end Workflow
