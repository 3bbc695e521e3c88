import Workflow.Proofs.Records
import Workflow.Step.Document

/-!
# Reading back pipelines

The document of a pipeline is read back as that pipeline, whatever the kinds of its
steps and whichever of their options are left out.  Each kind of step has its own list
of fields; the members that a step writes are some of them, in order.
-/

namespace Workflow

open Document

namespace PromptRef

variable (reference : PromptRef)

/-- The members of the document of a prompt's reference. -/
def members : List (String × Document) :=
  member "variable" (.string reference.name) ++ member? "field" .string reference.field

theorem exact_toDocument : reference.toDocument.Exact := by
  refine .record ?_
  simp only [List.forall_mem_append, forall_member, forall_member?]
  exact ⟨.string _, fun _ _ => .string _⟩

theorem ofDocument?_toDocument :
    PromptRef.ofDocument? reference.toDocument = some reference := by
  have names : (reference.members.map Prod.fst).Sublist
      (([⟨"variable", []⟩, ⟨"field", []⟩] : List Field).map Field.name) := by
    simp only [members, List.map_append]
    exact (List.Sublist.refl ["variable"]).append (names_member? _)
  obtain ⟨fields, gathered, found⟩ := exists_fields? (by decide) (by decide) names
  obtain ⟨name, field⟩ :
      fields.lookup "variable" = some (.string reference.name) ∧
      fields.lookup "field" = reference.field.map .string := by
    simp [found, members, List.lookup_append]
  rw [show reference.toDocument = .record reference.members from rfl]
  simp only [PromptRef.ofDocument?, gathered, Fields.required_eq name,
    Fields.optional_string field, Document.string?, Option.bind_eq_bind, Option.bind_some]

end PromptRef

namespace ImageRef

variable {reference : ImageRef} (fits : reference.index < Text.naturalLimit)

include fits

theorem exact_toDocument : reference.toDocument.Exact := by
  refine .record ?_
  simp only [List.forall_mem_cons]
  exact ⟨.string _, exact_nat fits, by simp⟩

theorem ofDocument?_toDocument : ImageRef.ofDocument? reference.toDocument = some reference := by
  have names : (([("variable", .string reference.name), ("index", .nat reference.index)] :
      List (String × Document)).map Prod.fst).Sublist
        (([⟨"variable", []⟩, ⟨"index", []⟩] : List Field).map Field.name) :=
    List.Sublist.refl _
  obtain ⟨fields, gathered, found⟩ := exists_fields? (by decide) (by decide) names
  obtain ⟨name, index⟩ :
      fields.lookup "variable" = some (.string reference.name) ∧
      fields.lookup "index" = some (.nat reference.index) := by
    simp [found, lookup_cons_eq_ite]
  rw [toDocument]
  simp only [ImageRef.ofDocument?, gathered, Fields.required_eq name, Fields.required_eq index,
    Document.string?, nat?_nat fits, Option.bind_eq_bind, Option.bind_some]

end ImageRef

namespace Deferred

/-- The indices of the references are ones that a document can hold. -/
def Fits (deferred : Deferred) : Prop :=
  (∀ reference ∈ deferred.references, reference.index < Text.naturalLimit) ∧
    ∀ reference ∈ deferred.overlays, reference.index < Text.naturalLimit

variable {deferred : Deferred}

/-- The members of the document of a step's references. -/
def inner (deferred : Deferred) : List (String × Document) :=
  member? "prompt" PromptRef.toDocument deferred.prompt ++
    listMember "references" ImageRef.toDocument deferred.references ++
    listMember "overlays" ImageRef.toDocument deferred.overlays

theorem exact_toDocument (fits : deferred.Fits) : deferred.toDocument.Exact := by
  refine .record ?_
  simp only [List.forall_mem_append, forall_member?, forall_listMember]
  refine ⟨⟨fun prompt _ => prompt.exact_toDocument, fun _ => .list ?_⟩, fun _ => .list ?_⟩
  · rw [List.forall_mem_map]
    exact fun reference listed => ImageRef.exact_toDocument (fits.1 reference listed)
  · rw [List.forall_mem_map]
    exact fun reference listed => ImageRef.exact_toDocument (fits.2 reference listed)

theorem ofDocument?_toDocument (fits : deferred.Fits) :
    Deferred.ofDocument? deferred.toDocument = some deferred := by
  have names : (deferred.inner.map Prod.fst).Sublist
      (([⟨"prompt", []⟩, ⟨"references", []⟩, ⟨"overlays", []⟩] : List Field).map
        Field.name) := by
    simp only [inner, List.map_append]
    exact ((names_member? _).append (names_listMember _)).append (names_listMember _)
  obtain ⟨fields, gathered, found⟩ := exists_fields? (by decide) (by decide) names
  obtain ⟨prompt, references, overlays⟩ :
      fields.lookup "prompt" = deferred.prompt.map PromptRef.toDocument ∧
      fields.lookup "references" = (if deferred.references ≠ [] then
        some (.list (deferred.references.map ImageRef.toDocument)) else none) ∧
      fields.lookup "overlays" = (if deferred.overlays ≠ [] then
        some (.list (deferred.overlays.map ImageRef.toDocument)) else none) := by
    simp [found, inner, List.lookup_append]
  have promptRead : fields.optional "prompt" PromptRef.ofDocument? = some deferred.prompt :=
    Fields.optional_eq prompt (fun _ => Document.noConfusion) PromptRef.ofDocument?_toDocument
  have referencesRead : fields.withDefault "references" (list? ImageRef.ofDocument?) [] =
      some deferred.references :=
    Fields.withDefault_list_eq references fun reference listed =>
      ImageRef.ofDocument?_toDocument (fits.1 reference listed)
  have overlaysRead : fields.withDefault "overlays" (list? ImageRef.ofDocument?) [] =
      some deferred.overlays :=
    Fields.withDefault_list_eq overlays fun reference listed =>
      ImageRef.ofDocument?_toDocument (fits.2 reference listed)
  rw [show deferred.toDocument = .record deferred.inner from rfl]
  simp only [Deferred.ofDocument?, gathered, promptRead, referencesRead, overlaysRead,
    Option.bind_eq_bind, Option.bind_some]

@[simp] theorem lookup_members {key : String} :
    deferred.members.lookup key =
      if key = "deferred" ∧ ¬deferred.isEmpty then some deferred.toDocument else none := by
  unfold members
  cases deferred.isEmpty <;> simp

@[simp] theorem forall_members {motive : Document → Prop} :
    (∀ entry ∈ deferred.members, motive entry.2) ↔
      (¬deferred.isEmpty → motive deferred.toDocument) := by
  unfold members
  cases deferred.isEmpty with
  | true => simp
  | false => simpa using forall_member

theorem names_members : (deferred.members.map Prod.fst).Sublist ["deferred"] := by
  unfold members
  cases deferred.isEmpty <;> simp [member]

theorem eq_of_isEmpty (nothing : deferred.isEmpty) : deferred = {} := by
  obtain ⟨prompt, references, overlays⟩ := deferred
  simp_all [isEmpty]

end Deferred

/-- The fields of a step of a kind, but for the kind itself. -/
def StepKind.fields : StepKind → List Field
  | generate => [⟨"generator", []⟩, ⟨"params", []⟩, ⟨"deferred", []⟩, ⟨"out", []⟩]
  | transform => [⟨"op", []⟩, ⟨"in", []⟩, ⟨"params", []⟩, ⟨"deferred", []⟩, ⟨"out", []⟩]
  | save =>
      [⟨"nodeId", []⟩, ⟨"in", []⟩, ⟨"destination", []⟩, ⟨"provider", []⟩, ⟨"params", []⟩]
  | vision => [⟨"provider", []⟩, ⟨"in", []⟩, ⟨"context", []⟩, ⟨"params", []⟩,
      ⟨"deferred", []⟩, ⟨"out", []⟩]
  | text => [⟨"provider", []⟩, ⟨"in", []⟩, ⟨"params", []⟩, ⟨"deferred", []⟩, ⟨"out", []⟩]
  | fanOut => [⟨"nodeId", []⟩, ⟨"in", []⟩, ⟨"mode", []⟩, ⟨"count", []⟩,
      ⟨"arrayProperty", []⟩, ⟨"out", []⟩]
  | collect => [⟨"in", []⟩, ⟨"waitMode", []⟩, ⟨"out", []⟩]
  | router => [⟨"in", []⟩, ⟨"selectionIn", []⟩, ⟨"selectionType", []⟩,
      ⟨"selectionProperty", []⟩, ⟨"outputCount", []⟩, ⟨"contextProperty", []⟩, ⟨"out", []⟩,
      ⟨"contextOut", []⟩]

theorem StepKind.ofName?_name (kind : StepKind) : ofName? kind.name = some kind := by
  cases kind <;> rfl

namespace Step

/-- Nothing of a step is lost in its text: its parameters are exact, and its indices and
counts are ones that a document can hold. -/
def Exact : Step → Prop
  | generate s => s.params.Exact ∧ s.deferred.Fits
  | transform s => s.params.Exact ∧ s.deferred.Fits
  | save s => s.params.Exact
  | vision s => s.params.Exact ∧ s.deferred.Fits
  | text s => s.params.Exact ∧ s.deferred.Fits
  | fanOut s => s.count < Text.naturalLimit
  | collect _ => True
  | router s => s.outputCount < Text.naturalLimit

theorem names_members (step : Step) :
    (step.members.map Prod.fst).Sublist (step.kind.fields.map Field.name) := by
  have always : ∀ names : List String, names.Sublist names := List.Sublist.refl
  cases step with
  | generate s =>
      simp only [members, List.map_append]
      exact ((always ["generator", "params"]).append Deferred.names_members).append
        (always ["out"])
  | transform s =>
      simp only [members, List.map_append]
      exact ((always ["op", "in", "params"]).append Deferred.names_members).append
        (always ["out"])
  | save s => exact always ["nodeId", "in", "destination", "provider", "params"]
  | vision s =>
      simp only [members, List.map_append]
      exact ((((always ["provider", "in"]).append (names_member? _)).append
        (always ["params"])).append Deferred.names_members).append (always ["out"])
  | text s =>
      simp only [members, List.map_append]
      exact ((((always ["provider"]).append (names_member? _)).append
        (always ["params"])).append Deferred.names_members).append (always ["out"])
  | fanOut s =>
      simp only [members, List.map_append]
      exact ((always ["nodeId", "in", "mode", "count"]).append (names_member? _)).append
        (always ["out"])
  | collect s => exact always ["in", "waitMode", "out"]
  | router s =>
      simp only [members, List.map_append]
      exact (((((always ["in", "selectionIn", "selectionType"]).append (names_member? _)).append
        (always ["outputCount"])).append (names_member? _)).append (always ["out"])).append
          (names_member? _)

theorem exists_fields (step : Step) :
    ∃ fields, fields? step.kind.fields (.record step.members) = some fields ∧
      ∀ name ∈ step.kind.fields.map Field.name,
        fields.lookup name = step.members.lookup name := by
  refine exists_fields? ?_ ?_ step.names_members
  · cases step.kind <;> decide
  · cases step.kind <;> decide

theorem exact_toDocument {step : Step} (exact : step.Exact) : step.toDocument.Exact := by
  have text : ∀ text, (Document.string text).Exact := .string
  have texts : ∀ texts, (strings texts).Exact := by
    intro texts
    refine .list ?_
    rw [List.forall_mem_map]
    exact fun text _ => .string text
  refine .record (List.forall_mem_cons.mpr ⟨text _, ?_⟩)
  cases step with
  | generate s | transform s | vision s | text s =>
      simp only [members, List.forall_mem_append, forall_member, forall_member?,
        Deferred.forall_members, text, exact_ofParams exact.1,
        Deferred.exact_toDocument exact.2, implies_true, and_self]
  | save s =>
      simp only [members, List.forall_mem_append, forall_member, text, exact_ofParams exact,
        and_self]
  | fanOut s =>
      simp only [members, List.forall_mem_append, forall_member, forall_member?, text, texts,
        exact_nat exact, implies_true, and_self]
  | collect s =>
      simp only [members, List.forall_mem_append, forall_member, text, texts, and_self]
  | router s =>
      simp only [members, List.forall_mem_append, forall_member, forall_member?, text,
        exact_nat exact, implies_true, and_self]

section Parts

variable {fields : Fields}

theorem params_eq {params : Params}
    (found : fields.lookup "params" = some (.ofParams params)) (exact : params.Exact)
    (shallow : (ofParams params).depth ≤ maxLevels - 1) : Step.params fields = some params := by
  rw [Step.params, Fields.required_eq found, params?_ofParams exact shallow]

theorem deferred_eq {deferred : Deferred}
    (found : fields.lookup "deferred" =
      if ¬deferred.isEmpty then some deferred.toDocument else none)
    (fits : deferred.Fits) : Step.deferred fields = some deferred := by
  by_cases nothing : deferred.isEmpty
  · rw [if_neg (not_not_intro nothing)] at found
    rw [Step.deferred, Fields.withDefault, found, deferred.eq_of_isEmpty nothing]
  · rw [if_pos nothing] at found
    rw [Step.deferred, Fields.withDefault_eq found, Deferred.ofDocument?_toDocument fits]

end Parts

theorem generate?_members (s : GenerateStep) (exact : s.params.Exact) (fits : s.deferred.Fits)
    (shallow : (ofParams s.params).depth ≤ maxLevels - 1) :
    generate? (.record (generate s).members) = some (generate s) := by
  obtain ⟨fields, gathered, found⟩ := (generate s).exists_fields
  obtain ⟨generator, params, deferred, out⟩ :
      fields.lookup "generator" = some (.string s.generator) ∧
      fields.lookup "params" = some (.ofParams s.params) ∧
      fields.lookup "deferred" =
        (if ¬s.deferred.isEmpty then some s.deferred.toDocument else none) ∧
      fields.lookup "out" = some (.string s.out) := by
    simp [found, kind, StepKind.fields, members, List.lookup_append]
  simp only [kind, StepKind.fields] at gathered
  simp only [generate?, gathered, Fields.required_eq generator, params_eq params exact shallow,
    deferred_eq deferred fits, Fields.required_eq out, Document.string?, Option.bind_eq_bind,
    Option.bind_some]

theorem transform?_members (s : TransformStep) (exact : s.params.Exact) (fits : s.deferred.Fits)
    (shallow : (ofParams s.params).depth ≤ maxLevels - 1) :
    transform? (.record (transform s).members) = some (transform s) := by
  obtain ⟨fields, gathered, found⟩ := (transform s).exists_fields
  obtain ⟨operation, input, params, deferred, out⟩ :
      fields.lookup "op" = some (.string s.operation) ∧
      fields.lookup "in" = some (.string s.input) ∧
      fields.lookup "params" = some (.ofParams s.params) ∧
      fields.lookup "deferred" =
        (if ¬s.deferred.isEmpty then some s.deferred.toDocument else none) ∧
      fields.lookup "out" = some (.string s.out) := by
    simp [found, kind, StepKind.fields, members, List.lookup_append]
  simp only [kind, StepKind.fields] at gathered
  simp only [transform?, gathered, Fields.required_eq operation, Fields.required_eq input,
    params_eq params exact shallow, deferred_eq deferred fits, Fields.required_eq out,
    Document.string?, Option.bind_eq_bind, Option.bind_some]

theorem save?_members (s : SaveStep) (exact : s.params.Exact)
    (shallow : (ofParams s.params).depth ≤ maxLevels - 1) :
    save? (.record (save s).members) = some (save s) := by
  obtain ⟨fields, gathered, found⟩ := (save s).exists_fields
  obtain ⟨node, input, destination, provider, params⟩ :
      fields.lookup "nodeId" = some (.string s.node) ∧
      fields.lookup "in" = some (.string s.input) ∧
      fields.lookup "destination" = some (.string s.destination) ∧
      fields.lookup "provider" = some (.string s.provider) ∧
      fields.lookup "params" = some (.ofParams s.params) := by
    simp [found, kind, StepKind.fields, members, List.lookup_append]
  simp only [kind, StepKind.fields] at gathered
  simp only [save?, gathered, Fields.required_eq node, Fields.required_eq input,
    Fields.required_eq destination, Fields.required_eq provider, Fields.withDefault_eq params,
    params?_ofParams exact shallow, Document.string?, Option.bind_eq_bind, Option.bind_some]

theorem vision?_members (s : VisionStep) (exact : s.params.Exact) (fits : s.deferred.Fits)
    (shallow : (ofParams s.params).depth ≤ maxLevels - 1) :
    vision? (.record (vision s).members) = some (vision s) := by
  obtain ⟨fields, gathered, found⟩ := (vision s).exists_fields
  obtain ⟨provider, input, context, params, deferred, out⟩ :
      fields.lookup "provider" = some (.string s.provider) ∧
      fields.lookup "in" = some (.string s.input) ∧
      fields.lookup "context" = s.context.map .string ∧
      fields.lookup "params" = some (.ofParams s.params) ∧
      fields.lookup "deferred" =
        (if ¬s.deferred.isEmpty then some s.deferred.toDocument else none) ∧
      fields.lookup "out" = some (.string s.out) := by
    simp [found, kind, StepKind.fields, members, List.lookup_append]
  simp only [kind, StepKind.fields] at gathered
  simp only [vision?, gathered, Fields.required_eq provider, Fields.required_eq input,
    Fields.optional_string context, params_eq params exact shallow, deferred_eq deferred fits,
    Fields.required_eq out, Document.string?, Option.bind_eq_bind, Option.bind_some]

theorem text?_members (s : TextStep) (exact : s.params.Exact) (fits : s.deferred.Fits)
    (shallow : (ofParams s.params).depth ≤ maxLevels - 1) :
    text? (.record (text s).members) = some (text s) := by
  obtain ⟨fields, gathered, found⟩ := (text s).exists_fields
  obtain ⟨provider, input, params, deferred, out⟩ :
      fields.lookup "provider" = some (.string s.provider) ∧
      fields.lookup "in" = s.input.map .string ∧
      fields.lookup "params" = some (.ofParams s.params) ∧
      fields.lookup "deferred" =
        (if ¬s.deferred.isEmpty then some s.deferred.toDocument else none) ∧
      fields.lookup "out" = some (.string s.out) := by
    simp [found, kind, StepKind.fields, members, List.lookup_append]
  simp only [kind, StepKind.fields] at gathered
  simp only [text?, gathered, Fields.required_eq provider, Fields.optional_string input,
    params_eq params exact shallow, deferred_eq deferred fits, Fields.required_eq out,
    Document.string?, Option.bind_eq_bind, Option.bind_some]

theorem fanOut?_members (s : FanOutStep) (fits : s.count < Text.naturalLimit) :
    fanOut? (.record (fanOut s).members) = some (fanOut s) := by
  obtain ⟨fields, gathered, found⟩ := (fanOut s).exists_fields
  obtain ⟨node, input, mode, count, arrayProperty, out⟩ :
      fields.lookup "nodeId" = some (.string s.node) ∧
      fields.lookup "in" = some (.string s.input) ∧
      fields.lookup "mode" = some (.string s.mode.name) ∧
      fields.lookup "count" = some (.nat s.count) ∧
      fields.lookup "arrayProperty" = s.arrayProperty.map .string ∧
      fields.lookup "out" = some (.strings s.out) := by
    simp [found, kind, StepKind.fields, members, List.lookup_append]
  have means : FanOutMode.ofName? s.mode.name = some s.mode := by
    cases s.mode <;> rfl
  simp only [kind, StepKind.fields] at gathered
  simp only [fanOut?, gathered, Fields.required_eq node, Fields.required_eq input,
    Fields.required_eq mode, Fields.required_eq count, Fields.optional_string arrayProperty,
    Fields.required_eq out, Step.word?, Document.word?, means, nat?_nat fits, strings?_strings,
    Document.string?, Option.bind_eq_bind, Option.bind_some]

theorem collect?_members (s : CollectStep) :
    collect? (.record (collect s).members) = some (collect s) := by
  obtain ⟨fields, gathered, found⟩ := (collect s).exists_fields
  obtain ⟨inputs, waitMode, out⟩ :
      fields.lookup "in" = some (.strings s.inputs) ∧
      fields.lookup "waitMode" = some (.string s.waitMode.name) ∧
      fields.lookup "out" = some (.string s.out) := by
    simp [found, kind, StepKind.fields, members, List.lookup_append]
  have means : WaitMode.ofName? s.waitMode.name = some s.waitMode := by
    cases s.waitMode <;> rfl
  simp only [kind, StepKind.fields] at gathered
  simp only [collect?, gathered, Fields.required_eq inputs, Fields.required_eq waitMode,
    Fields.required_eq out, Step.word?, Document.word?, means, strings?_strings,
    Document.string?, Option.bind_eq_bind, Option.bind_some]

theorem router?_members (s : RouterStep) (fits : s.outputCount < Text.naturalLimit) :
    router? (.record (router s).members) = some (router s) := by
  obtain ⟨fields, gathered, found⟩ := (router s).exists_fields
  obtain ⟨input, selectionInput, selectionType, selectionProperty, outputCount, contextProperty,
      out, contextOut⟩ :
      fields.lookup "in" = some (.string s.input) ∧
      fields.lookup "selectionIn" = some (.string s.selectionInput) ∧
      fields.lookup "selectionType" = some (.string s.selectionType.name) ∧
      fields.lookup "selectionProperty" = s.selectionProperty.map .string ∧
      fields.lookup "outputCount" = some (.nat s.outputCount) ∧
      fields.lookup "contextProperty" = s.contextProperty.map .string ∧
      fields.lookup "out" = some (.string s.out) ∧
      fields.lookup "contextOut" = s.contextOut.map .string := by
    simp [found, kind, StepKind.fields, members, List.lookup_append]
  have means : SelectionType.ofName? s.selectionType.name = some s.selectionType := by
    cases s.selectionType <;> rfl
  simp only [kind, StepKind.fields] at gathered
  simp only [router?, gathered, Fields.required_eq input, Fields.required_eq selectionInput,
    Fields.required_eq selectionType, Fields.optional_string selectionProperty,
    Fields.required_eq outputCount, Fields.optional_string contextProperty,
    Fields.required_eq out, Fields.optional_string contextOut, Step.word?, Document.word?, means,
    nat?_nat fits, Document.string?, Option.bind_eq_bind, Option.bind_some]

variable {step : Step}

theorem depth_ofParams_le (shallow : step.toDocument.depth ≤ maxLevels) {params : Params}
    (has : step.params? = some params) : (ofParams params).depth ≤ maxLevels - 1 := by
  have listed : ("params", ofParams params) ∈ step.members := by
    cases step with
    | generate s | transform s | save s | vision s | text s =>
        obtain rfl := Option.some.inj has
        simp [members, member]
    | fanOut s | collect s | router s => cases has
  exact depth_record_le_iff.mp shallow _ (List.mem_cons_of_mem _ listed)

/-- The members of a step are read back by the reader of its kind. -/
theorem ofFields?_members (exact : step.Exact) (shallow : step.toDocument.depth ≤ maxLevels) :
    ofFields? step.kind (.record step.members) = some step := by
  cases step with
  | generate s => exact generate?_members s exact.1 exact.2 (depth_ofParams_le shallow rfl)
  | transform s => exact transform?_members s exact.1 exact.2 (depth_ofParams_le shallow rfl)
  | save s => exact save?_members s exact (depth_ofParams_le shallow rfl)
  | vision s => exact vision?_members s exact.1 exact.2 (depth_ofParams_le shallow rfl)
  | text s => exact text?_members s exact.1 exact.2 (depth_ofParams_le shallow rfl)
  | fanOut s => exact fanOut?_members s exact
  | collect s => exact collect?_members s
  | router s => exact router?_members s exact

theorem kind_notMem_names (step : Step) : "kind" ∉ step.members.map Prod.fst := by
  intro listed
  have known := step.names_members.subset listed
  revert known
  cases step.kind <;> decide

theorem kindOf?_toDocument (step : Step) :
    kindOf? (("kind", step.kind.toDocument) :: step.members) = some step.kind := by
  have others : step.members.filter (fun entry => Field.goesBy ⟨"kind", []⟩ entry.1) = [] := by
    rw [List.filter_eq_nil_iff]
    intro entry listed named
    simp only [Field.goesBy, List.contains_nil, Bool.or_false, decide_eq_true_eq] at named
    exact step.kind_notMem_names (named ▸ List.mem_map_of_mem listed)
  have gathered : gather ⟨"kind", []⟩ (("kind", step.kind.toDocument) :: step.members) =
      some [("kind", .string step.kind.name)] := by
    rw [gather, List.filter_cons_of_pos (by simp [Field.goesBy]), others]
    rfl
  have kind : ([("kind", .string step.kind.name)] : Fields).lookup "kind" =
      some (.string step.kind.name) := rfl
  rw [kindOf?, gathered]
  simp only [Option.bind_eq_bind, Option.bind_some, Fields.required_eq kind, Document.string?,
    StepKind.ofName?_name]

theorem ofDocument?_toDocument (exact : step.Exact)
    (shallow : step.toDocument.depth ≤ maxLevels) :
    Step.ofDocument? step.toDocument = some step := by
  obtain ⟨value, usable⟩ := (exact_toDocument exact).exists_toJson? shallow
  have kept : (("kind", step.kind.toDocument) :: step.members).filter
      (fun entry => entry.1 ≠ "kind") = step.members := by
    rw [List.filter_cons_of_neg (by simp), List.filter_eq_self]
    intro entry listed
    have different : entry.1 ≠ "kind" := by
      intro named
      exact step.kind_notMem_names (named ▸ List.mem_map_of_mem listed)
    simpa using different
  rw [toDocument] at usable ⊢
  rw [Step.ofDocument?, usable]
  simp only [Option.bind_eq_bind, Option.bind_some, kindOf?_toDocument, kept]
  exact ofFields?_members exact shallow

end Step

namespace Pipeline

variable {pipeline : Pipeline}

theorem exact_toDocument (exact : ∀ step ∈ pipeline.steps, step.Exact) :
    pipeline.toDocument.Exact := by
  refine .record ?_
  simp only [List.forall_mem_cons]
  refine ⟨.string _, .list ?_, by simp⟩
  rw [List.forall_mem_map]
  exact fun step listed => Step.exact_toDocument (exact step listed)

theorem depth_toDocument_le (shallow : pipeline.toDocument.depth ≤ Document.maxLevels)
    {step : Step} (listed : step ∈ pipeline.steps) :
    step.toDocument.depth ≤ Step.maxLevels := by
  have steps := depth_record_le_iff.mp shallow
    ("steps", .list (pipeline.steps.map Step.toDocument)) (by simp)
  exact depth_list_le_iff.mp steps step.toDocument (List.mem_map_of_mem listed)

theorem ofDocument?_toDocument (exact : ∀ step ∈ pipeline.steps, step.Exact)
    (shallow : pipeline.toDocument.depth ≤ Document.maxLevels) :
    Pipeline.ofDocument? pipeline.toDocument = some pipeline := by
  have names : (([("name", .string pipeline.name),
      ("steps", .list (pipeline.steps.map Step.toDocument))] :
        List (String × Document)).map Prod.fst).Sublist
          (([⟨"name", []⟩, ⟨"steps", []⟩] : List Field).map Field.name) :=
    List.Sublist.refl _
  obtain ⟨fields, gathered, found⟩ := exists_fields? (by decide) (by decide) names
  obtain ⟨name, steps⟩ :
      fields.lookup "name" = some (.string pipeline.name) ∧
      fields.lookup "steps" = some (.list (pipeline.steps.map Step.toDocument)) := by
    simp [found, lookup_cons_eq_ite]
  have read : list? Step.ofDocument? (.list (pipeline.steps.map Step.toDocument)) =
      some pipeline.steps :=
    list?_map fun step listed =>
      Step.ofDocument?_toDocument (exact step listed) (depth_toDocument_le shallow listed)
  rw [toDocument]
  simp only [Pipeline.ofDocument?, gathered, Fields.required_eq name, Fields.required_eq steps,
    read, Document.string?, Option.bind_eq_bind, Option.bind_some]

/-- A pipeline whose steps are exact is read back from its text, if its document is not
too deep. -/
theorem pipelines_read_back (pipeline : Pipeline)
    (exact : ∀ step ∈ pipeline.steps, step.Exact)
    (shallow : pipeline.toDocument.depth ≤ Document.maxLevels) :
    Pipeline.ofText? pipeline.text = some pipeline := by
  rw [Pipeline.ofText?, text, (exact_toDocument exact).ofText?_text, Option.bind_some,
    ofDocument?_toDocument exact shallow]

/-- A step of each kind, some with their options and some without; one index and one
count are as great as they can be. -/
def assorted : Pipeline where
  name := "assorted \"\t\x7f"
  steps := [
    .generate { generator := "flux", params := ⟨[("seed", .int (-1)), ("style", .null)], by decide⟩
                out := "a" },
    .transform { operation := "blend", input := "a", params := ∅, out := "b"
                 deferred := {
                   prompt := some { name := "e", field := some "title" }
                   overlays := [{ name := "a", index := 18446744073709551615 }] } },
    .save { node := "c", input := "b", destination := "", provider := "disk" },
    .vision { provider := "eye", input := "b", context := some "a", params := ∅, out := "d"
              deferred := { references := [{ name := "a", index := 0 }] } },
    .text { provider := "pen", params := ∅, out := "e" },
    .fanOut { node := "f", input := "e", mode := .array, count := 18446744073709551615
              arrayProperty := some "items", out := [] },
    .collect { inputs := ["a", "b"], waitMode := .available, out := "g" },
    .router { input := "g", selectionInput := "e", selectionType := .value, outputCount := 1
              contextProperty := some "why", out := "h", contextOut := some "h_context" }]

theorem assorted_reads_back : Pipeline.ofText? assorted.text = some assorted := by
  have seed : (Json.int (-1)).Canonical := Json.canonical_int (by decide) (by decide)
  have nothing : ({} : Deferred).Fits := ⟨by simp, by simp⟩
  have exact : ∀ step ∈ assorted.steps, step.Exact := by
    simp only [assorted, List.forall_mem_cons]
    refine ⟨⟨⟨?_, ?_⟩, nothing⟩, ⟨Params.exact_empty, ?_⟩, Params.exact_empty,
      ⟨Params.exact_empty, ?_⟩, ⟨Params.exact_empty, nothing⟩, ?_, trivial, ?_, by simp⟩
    · exact ⟨seed, trivial, trivial⟩
    · exact ⟨trivial, trivial, trivial⟩
    · exact ⟨by decide, by decide⟩
    · exact ⟨by decide, by decide⟩
    · exact (by decide : 18446744073709551615 < Text.naturalLimit)
    · exact (by decide : 1 < Text.naturalLimit)
  exact assorted.pipelines_read_back exact (by decide)

end Pipeline

end Workflow
