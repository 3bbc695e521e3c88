import Mathlib.Data.List.Permutation
import Workflow.Proofs.Base64
import Workflow.Proofs.Records
import Workflow.Run.Store

/-!
# Reading back values

The document of a value is read back as that value, in whatever order the members of its
records stand.  A JSON value brings members into its own order, so a value may as well be
read by way of one.  A store lists the documents of its values in the order of binding.
-/

namespace Workflow

open Document

namespace Document

variable {levels : Nat} {members written base : List (String × Document)}

theorem exists_levels_of_record (within : (record members).depth ≤ levels) :
    ∃ fewer, levels = fewer + 1 ∧ ∀ entry ∈ members, entry.2.depth ≤ fewer := by
  cases levels with
  | zero => exact absurd within (Nat.not_succ_le_zero _)
  | succ fewer => exact ⟨fewer, rfl, depth_record_le_iff.mp within⟩

/-- The content of a member has a value, and another member of the same name has the
document of that value. -/
def Revalued (levels : Nat) (entry other : String × Document) : Prop :=
  entry.1 = other.1 ∧ ∃ value, toJson? levels entry.2 = some value ∧ ofJson value = other.2

/-- A document that is a string. -/
inductive IsText : Document → Prop
  | intro (text : String) : IsText (.string text)

theorem IsText.exact {document : Document} (isText : document.IsText) : document.Exact := by
  obtain ⟨text⟩ := isText
  exact .string text

theorem IsText.revalued {entry : String × Document} (isText : entry.2.IsText) :
    Revalued levels entry entry := by
  obtain ⟨name, content⟩ := entry
  obtain ⟨text⟩ := isText
  exact ⟨rfl, .string text, by rw [toJson?], by rw [ofJson]⟩

theorem ofMembers_eq_map (members : List (String × Json)) :
    ofMembers members = members.map fun entry => (entry.1, ofJson entry.2) := by
  induction members with
  | nil => rw [ofMembers, List.map_nil]
  | cons entry members induction => rw [ofMembers, induction, List.map_cons]

theorem exists_membersToJson?_ofMembers (each : List.Forall₂ (Revalued levels) members written) :
    ∃ values, membersToJson? levels members = some values ∧ ofMembers values = written := by
  induction each with
  | nil => exact ⟨[], by rw [membersToJson?], by rw [ofMembers]⟩
  | @cons entry other members written first later induction =>
      obtain ⟨name, value, found, again⟩ := first
      obtain ⟨values, foundLater, againLater⟩ := induction
      refine ⟨(entry.1, value) :: values, ?_, ?_⟩
      · rw [membersToJson?, found, foundLater]
        rfl
      · rw [ofMembers, again, againLater, name]

/-- Of the order of a record's members nothing is left in its value. -/
theorem exists_toJson?_record (permutation : members.Perm base)
    (distinct : (base.map Prod.fst).Nodup) (each : List.Forall₂ (Revalued levels) base written) :
    ∃ value sorted, toJson? (levels + 1) (.record members) = some value ∧
      ofJson value = .record sorted ∧ sorted.Perm written := by
  obtain ⟨placed, placedEach, placedPerm⟩ := List.perm_comp_forall₂ permutation each
  obtain ⟨values, found, again⟩ := exists_membersToJson?_ofMembers placedEach
  have names : values.map Prod.fst = members.map Prod.fst := by
    have listed : (ofMembers values).map Prod.fst = values.map Prod.fst := by
      rw [ofMembers_eq_map, List.map_map]
      rfl
    rw [← listed, again]
    clear found again placedPerm permutation
    induction placedEach with
    | nil => rfl
    | cons first later induction => rw [List.map_cons, List.map_cons, induction, first.1]
  have unique : (values.map Prod.fst).Nodup := by
    rw [names]
    exact (permutation.map Prod.fst).nodup_iff.mpr distinct
  refine ⟨.ofMap (.ofList values), ofMembers (KeyMap.ofList values).entries, ?_, ?_, ?_⟩
  · rw [toJson?, found]
    rfl
  · rw [Json.ofMap, ofJson]
  · have sorted : (ofMembers (KeyMap.ofList values).entries).Perm (ofMembers values) := by
      rw [ofMembers_eq_map, ofMembers_eq_map]
      exact (KeyMap.entries_ofList_perm unique).map _
    rw [again] at sorted
    exact sorted.trans placedPerm

end Document

namespace Image

variable {image : Image} {document : Document} {levels : Nat}

def members (image : Image) : List (String × Document) :=
  member? "id" .string image.id ++ member? "mimeType" .string image.mimeType ++
    member "data" (.string (Base64.encode image.data)) ++ member? "url" .string image.url

/-- A document spells an image if it has the image's members, in any order. -/
inductive Spelt (image : Image) : Document → Prop
  | intro {members : List (String × Document)} :
      members.Perm image.members → image.Spelt (.record members)

theorem spelt_toDocument (image : Image) : image.Spelt image.toDocument :=
  .intro (.refl _)

theorem names_members (image : Image) :
    (image.members.map Prod.fst).Sublist (knownFields.map Field.name) := by
  simp only [members, List.map_append]
  exact (((names_member? _).append (names_member? _)).append (.refl ["data"])).append
    (names_member? _)

theorem nodup_members (image : Image) : (image.members.map Prod.fst).Nodup :=
  image.names_members.nodup (by decide)

theorem isText_of_mem_members : ∀ entry ∈ image.members, entry.2.IsText := by
  simp only [members, List.forall_mem_append, forall_member, forall_member?]
  exact ⟨⟨⟨fun _ _ => .intro _, fun _ _ => .intro _⟩, .intro _⟩, fun _ _ => .intro _⟩

theorem Spelt.exact (spelt : image.Spelt document) : document.Exact := by
  obtain ⟨permutation⟩ := spelt
  refine .record ?_
  intro entry listed
  exact (isText_of_mem_members entry (permutation.mem_iff.mp listed)).exact

theorem Spelt.ofDocument? (spelt : image.Spelt document) :
    Image.ofDocument? document = some image := by
  obtain @⟨members, permutation⟩ := spelt
  have distinct : (members.map Prod.fst).Nodup :=
    (permutation.map Prod.fst).nodup_iff.mpr image.nodup_members
  have plain : ∀ field ∈ knownFields, field.aliases = [] := by decide
  obtain ⟨fields, gathered, found⟩ := exists_gatherAll plain distinct
  obtain ⟨id, mimeType, data, url⟩ :
      fields.lookup "id" = image.id.map .string ∧
      fields.lookup "mimeType" = image.mimeType.map .string ∧
      fields.lookup "data" = some (.string (Base64.encode image.data)) ∧
      fields.lookup "url" = image.url.map .string := by
    simp [found, lookup_perm permutation distinct, knownFields, Image.members, List.lookup_append]
  simp only [Image.ofDocument?, fields?, gathered, Fields.optional_string id,
    Fields.optional_string mimeType, Fields.withDefault_eq data, Fields.optional_string url,
    Document.string?, Base64.decode?_encode, Option.bind_eq_bind, Option.bind_some]

theorem Spelt.exists_toJson? (spelt : image.Spelt document) (within : document.depth ≤ levels) :
    ∃ value, toJson? levels document = some value ∧ image.Spelt (ofJson value) := by
  obtain ⟨permutation⟩ := spelt
  obtain ⟨levels, rfl, -⟩ := exists_levels_of_record within
  have each : List.Forall₂ (Revalued levels) image.members image.members := by
    apply List.forall₂_same.mpr
    intro entry listed
    exact (isText_of_mem_members entry listed).revalued
  obtain ⟨value, sorted, found, again, sortedPerm⟩ :=
    exists_toJson?_record permutation image.nodup_members each
  refine ⟨value, found, ?_⟩
  rw [again]
  exact .intro sortedPerm

end Image

namespace Value

variable {value : Value} {document content : Document} {members : List (String × Document)}
  {type : String} {levels : Nat}

/-- The members of a value's document: its type and its content. -/
def tagged (type : String) (content : Document) : List (String × Document) :=
  [("type", .string type), ("value", content)]

def textDocument (text : String) : Document :=
  .record [("text", .string text)]

/-- A document spells a value if it has the type and the content of the value, in either
order, and so for each item of a list. -/
inductive Spelt : Value → Document → Prop
  | image {image : Image} {content : Document} {members : List (String × Document)} :
      image.Spelt content → members.Perm (tagged "image" content) →
        Spelt (.image image) (.record members)
  | data {text : String} {members : List (String × Document)} :
      members.Perm (tagged "data" (textDocument text)) →
        Spelt (.data text) (.record members)
  | list {items : List Value} {documents : List Document} {members : List (String × Document)} :
      List.Forall₂ Spelt items documents → members.Perm (tagged "list" (.list documents)) →
        Spelt (.list items) (.record members)

mutual

theorem spelt_toDocument (value : Value) : value.Spelt value.toDocument := by
  cases value with
  | image image =>
      rw [toDocument]
      exact .image image.spelt_toDocument (.refl _)
  | data text =>
      rw [toDocument]
      exact .data (.refl _)
  | list items =>
      rw [toDocument]
      exact .list (spelt_toDocuments items) (.refl _)

theorem spelt_toDocuments (items : List Value) :
    List.Forall₂ Spelt items (toDocuments items) := by
  cases items with
  | nil =>
      rw [toDocuments]
      exact .nil
  | cons item items =>
      rw [toDocuments]
      exact .cons (spelt_toDocument item) (spelt_toDocuments items)

end

theorem exact_tagged (permutation : members.Perm (tagged type content)) (exact : content.Exact) :
    (Document.record members).Exact := by
  refine .record ?_
  intro entry listed
  have listed := permutation.mem_iff.mp listed
  simp only [tagged, List.mem_cons, List.not_mem_nil, or_false] at listed
  rcases listed with rfl | rfl
  · exact .string type
  · exact exact

mutual

theorem Spelt.exact {value : Value} {document : Document} (spelt : value.Spelt document) :
    document.Exact := by
  cases spelt with
  | image spelt permutation => exact exact_tagged permutation spelt.exact
  | data permutation =>
      refine exact_tagged permutation (.record ?_)
      rw [List.forall_mem_singleton]
      exact .string _
  | list spelt permutation => exact exact_tagged permutation (.list (Spelt.exact_items spelt))

theorem Spelt.exact_items {items : List Value} {documents : List Document}
    (spelt : List.Forall₂ Spelt items documents) : ∀ document ∈ documents, document.Exact := by
  cases spelt with
  | nil => simp
  | cons first later =>
      rw [List.forall_mem_cons]
      exact ⟨Spelt.exact first, Spelt.exact_items later⟩

end

theorem ofDocument?_tagged (permutation : members.Perm (tagged type content)) :
    Value.ofDocument? (.record members) = ofContent? type content := by
  rcases List.perm_pair.mp permutation with rfl | rfl
  · have named : typeMember? [("type", .string type), ("value", content)] = some type := rfl
    simp [Value.ofDocument?, named, contentOf?]
  · have named : typeMember? [("value", content), ("type", .string type)] = some type := rfl
    simp [Value.ofDocument?, named, contentOf?]

mutual

theorem Spelt.ofDocument? {value : Value} {document : Document} (spelt : value.Spelt document) :
    Value.ofDocument? document = some value := by
  cases spelt with
  | image spelt permutation =>
      have read := spelt.ofDocument?
      obtain ⟨-⟩ := spelt
      rw [ofDocument?_tagged permutation]
      simp [ofContent?, read]
  | @data text members permutation =>
      have read : text? (textDocument text) = some text := rfl
      rw [textDocument] at permutation read
      rw [ofDocument?_tagged permutation]
      simp [ofContent?, read]
  | list spelt permutation =>
      rw [ofDocument?_tagged permutation]
      simp [ofContent?, Spelt.ofItems? spelt]

theorem Spelt.ofItems? {items : List Value} {documents : List Document}
    (spelt : List.Forall₂ Spelt items documents) : Value.ofItems? documents = some items := by
  cases spelt with
  | nil => rw [Value.ofItems?]
  | cons first later => rw [Value.ofItems?, Spelt.ofDocument? first, Spelt.ofItems? later]

end

theorem exists_toJson?_tagged {motive : Document → Prop}
    (permutation : members.Perm (tagged type content))
    (within : (Document.record members).depth ≤ levels)
    (inner : ∀ {levels}, content.depth ≤ levels →
      ∃ json, toJson? levels content = some json ∧ motive (Document.ofJson json)) :
    ∃ json sorted again, toJson? levels (.record members) = some json ∧
      Document.ofJson json = .record sorted ∧ sorted.Perm (tagged type again) ∧ motive again := by
  obtain ⟨levels, rfl, shallow⟩ := exists_levels_of_record within
  have listed : ("value", content) ∈ members := permutation.mem_iff.mpr (by simp [tagged])
  obtain ⟨held, found, holds⟩ := inner (shallow _ listed)
  have tag : Revalued levels ("type", .string type) ("type", .string type) :=
    IsText.revalued (.intro type)
  have each : List.Forall₂ (Revalued levels) (tagged type content)
      (tagged type (Document.ofJson held)) :=
    .cons tag (.cons ⟨rfl, held, found, rfl⟩ .nil)
  obtain ⟨json, sorted, read, again, sortedPerm⟩ :=
    exists_toJson?_record permutation (by simp [tagged]) each
  exact ⟨json, sorted, Document.ofJson held, read, again, sortedPerm, holds⟩

theorem exists_toJson?_textDocument {text : String}
    (within : (textDocument text).depth ≤ levels) :
    ∃ json, toJson? levels (textDocument text) = some json ∧
      Document.ofJson json = textDocument text := by
  obtain ⟨levels, rfl, -⟩ := exists_levels_of_record within
  have only : Revalued levels ("text", .string text) ("text", .string text) :=
    IsText.revalued (.intro text)
  obtain ⟨json, sorted, read, again, sortedPerm⟩ :=
    exists_toJson?_record (.refl [("text", .string text)]) (by simp) (.cons only .nil)
  refine ⟨json, read, ?_⟩
  rw [again, List.perm_singleton.mp sortedPerm, textDocument]

mutual

theorem Spelt.exists_toJson? {value : Value} {document : Document} {levels : Nat}
    (spelt : value.Spelt document) (within : document.depth ≤ levels) :
    ∃ json, toJson? levels document = some json ∧ value.Spelt (Document.ofJson json) := by
  cases spelt with
  | image spelt permutation =>
      obtain ⟨json, sorted, _, read, again, sortedPerm, spelt⟩ :=
        exists_toJson?_tagged permutation within spelt.exists_toJson?
      refine ⟨json, read, ?_⟩
      rw [again]
      exact .image spelt sortedPerm
  | @data text members permutation =>
      obtain ⟨json, sorted, _, read, again, sortedPerm, rfl⟩ :=
        exists_toJson?_tagged (motive := (· = textDocument text)) permutation within
          exists_toJson?_textDocument
      refine ⟨json, read, ?_⟩
      rw [again]
      exact .data sortedPerm
  | @list items documents members spelt permutation =>
      have inner : ∀ {levels}, (Document.list documents).depth ≤ levels →
          ∃ json, toJson? levels (.list documents) = some json ∧
            ∃ others, Document.ofJson json = .list others ∧ List.Forall₂ Spelt items others := by
        intro levels within
        cases levels with
        | zero => exact absurd within (Nat.not_succ_le_zero _)
        | succ levels =>
            obtain ⟨values, read, again⟩ :=
              Spelt.exists_itemsToJson? spelt (depth_list_le_iff.mp within)
            refine ⟨.array values, ?_, ofItems values, ?_, again⟩
            · rw [toJson?, read]
              rfl
            · rw [Document.ofJson]
      obtain ⟨json, sorted, _, read, again, sortedPerm, documents, rfl, spelt⟩ :=
        exists_toJson?_tagged (motive := fun document =>
          ∃ others, document = .list others ∧ List.Forall₂ Spelt items others)
          permutation within inner
      refine ⟨json, read, ?_⟩
      rw [again]
      exact .list spelt sortedPerm

theorem Spelt.exists_itemsToJson? {items : List Value} {documents : List Document} {levels : Nat}
    (spelt : List.Forall₂ Spelt items documents)
    (within : ∀ document ∈ documents, document.depth ≤ levels) :
    ∃ values, itemsToJson? levels documents = some values ∧
      List.Forall₂ Spelt items (ofItems values) := by
  cases spelt with
  | nil =>
      refine ⟨[], ?_, ?_⟩
      · rw [itemsToJson?]
      · rw [ofItems]
        exact .nil
  | cons first later =>
      obtain ⟨here, there⟩ := List.forall_mem_cons.mp within
      obtain ⟨value, read, again⟩ := Spelt.exists_toJson? first here
      obtain ⟨values, readLater, againLater⟩ := Spelt.exists_itemsToJson? later there
      refine ⟨value :: values, ?_, ?_⟩
      · rw [itemsToJson?, read, readLater]
        rfl
      · rw [ofItems]
        exact .cons again againLater

end

/-- A value is what a text holds, whether it is read directly or by way of a JSON value. -/
structure ReadFrom (value : Value) (text : String) : Prop where
  directly : (Document.ofText? text).bind Value.ofDocument? = some value
  viaJson : ((Json.ofText? text).map Document.ofJson).bind Value.ofDocument? = some value

theorem Spelt.readFrom (spelt : value.Spelt document) (shallow : document.depth ≤ maxLevels) :
    value.ReadFrom document.text := by
  have read := spelt.exact.ofText?_text
  constructor
  · rw [read, Option.bind_some, spelt.ofDocument?]
  · obtain ⟨json, found, again⟩ := spelt.exists_toJson? shallow
    rw [Json.ofText?, read, Option.bind_some, found, Option.map_some, Option.bind_some,
      again.ofDocument?]

end Value

theorem Store.ofText?_toDocument (store : Store) :
    Document.ofText? store.toDocument.text =
      some (.record (store.entries.map fun entry => (entry.1, entry.2.toDocument))) := by
  have exact : store.toDocument.Exact := by
    refine .record ?_
    rw [List.forall_mem_map]
    exact fun entry _ => entry.2.spelt_toDocument.exact
  exact exact.ofText?_text

namespace Value

/-- A value is read back from its document, and from every document that has the same types
and contents in another order.  The document of a store has the documents of its values
under their names, in the order of binding. -/
theorem values_read_back :
    (∀ value : Value, value.Spelt value.toDocument ∧
      ∀ document, value.Spelt document → document.depth ≤ maxLevels →
        value.ReadFrom document.text) ∧
    ∀ store : Store, (∀ entry ∈ store.entries, entry.2.toDocument.depth ≤ maxLevels) →
      ∃ members, Document.ofText? store.toDocument.text = some (.record members) ∧
        List.Forall₂ (fun entry member => member.1 = entry.1 ∧ entry.2.ReadFrom member.2.text)
          store.entries members := by
  constructor
  · intro value
    exact ⟨value.spelt_toDocument, fun document spelt => spelt.readFrom⟩
  · intro store shallow
    refine ⟨_, store.ofText?_toDocument, ?_⟩
    rw [List.forall₂_map_right_iff, List.forall₂_same]
    intro entry listed
    exact ⟨rfl, entry.2.spelt_toDocument.readFrom (shallow entry listed)⟩

/-- A list in a list, texts with escapes and without characters, and images with one, two and
three bytes, one of them hosted elsewhere. -/
def album : Value :=
  .list [
    .image { id := some "sea", data := [255, 0, 16], url := some "https://sea" },
    .list [.data "a \"pier\"\n\x01é", .list [], .image { data := [7] }],
    .image { mimeType := some "image/webp", data := [251, 240] }]

/-- The document of the album with the content before the type throughout. -/
def albumReversed : Document :=
  .record [
    ("value", .list [
      .record [
        ("value", .record [("url", .string "https://sea"), ("data", .string "/wAQ"),
          ("id", .string "sea")]),
        ("type", .string "image")],
      .record [
        ("value", .list [
          .record [("value", textDocument "a \"pier\"\n\x01é"), ("type", .string "data")],
          .record [("value", .list []), ("type", .string "list")],
          .record [("value", .record [("data", .string "Bw==")]), ("type", .string "image")]]),
        ("type", .string "list")],
      .record [
        ("value", .record [("data", .string "+/A="), ("mimeType", .string "image/webp")]),
        ("type", .string "image")]]),
    ("type", .string "list")]

def albumStore : Store :=
  ⟨[("photos", album), ("album", .data ""), ("copies", .list [album, album])]⟩

theorem album_reads_back :
    album.ReadFrom album.toDocument.text ∧ album.ReadFrom albumReversed.text ∧
      ∃ members, Document.ofText? albumStore.toDocument.text = some (.record members) ∧
        List.Forall₂ (fun entry member => member.1 = entry.1 ∧ entry.2.ReadFrom member.2.text)
          albumStore.entries members := by
  have reversed : album.Spelt albumReversed := by
    refine .list (.cons ?_ (.cons ?_ (.cons ?_ .nil))) (.swap _ _ _)
    · exact .image (.intro (List.reverse_perm (Image.members _))) (.swap _ _ _)
    · refine .list (.cons ?_ (.cons ?_ (.cons ?_ .nil))) (.swap _ _ _)
      · exact .data (.swap _ _ _)
      · exact .list .nil (.swap _ _ _)
      · exact .image (.intro (.refl _)) (.swap _ _ _)
    · exact .image (.intro (.swap _ _ _)) (.swap _ _ _)
  obtain ⟨own, spellings⟩ := values_read_back.1 album
  refine ⟨spellings _ own (by decide), spellings _ reversed (by decide), ?_⟩
  exact values_read_back.2 albumStore (by decide)

end Value

end Workflow
