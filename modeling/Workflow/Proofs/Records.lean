import Workflow.Document.Record
import Workflow.Proofs.DocumentText
import Workflow.Proofs.Lookup

/-!
# Reading back values and records

A canonical value is read back from its document, and without doubles nothing of the
document is lost in its text.  A record whose members bear different names has, under
each known name, the content of the member of that name; so what a field is read as
depends on how that one member is written.
-/

namespace Workflow

namespace KeyMap

theorem get?_foldl_insert (bindings : List (String × α)) (map : KeyMap α) (name : String) :
    (bindings.foldl (fun map binding => map.insert binding.1 binding.2) map).get? name =
      (bindings.reverse.lookup name).or (map.get? name) := by
  induction bindings generalizing map with
  | nil => rfl
  | cons binding bindings induction =>
      rw [List.foldl_cons, induction, get?_insert, List.reverse_cons, List.lookup_append,
        Option.or_assoc, lookup_cons_eq_ite]
      split <;> rfl

theorem get?_ofList {bindings : List (String × α)} (distinct : (bindings.map Prod.fst).Nodup)
    (name : String) : (ofList bindings).get? name = bindings.lookup name := by
  have reversed : (bindings.reverse.map Prod.fst).Nodup := by
    rwa [List.map_reverse, List.nodup_reverse]
  rw [ofList, get?_foldl_insert, show (empty : KeyMap α).get? name = none from rfl, Option.or_none]
  exact lookup_perm (List.reverse_perm bindings) reversed name

theorem ofList_entries (map : KeyMap α) : ofList map.entries = map := by
  apply ext_get?
  intro name
  exact get?_ofList map.nodup_names name

/-- A map brings bindings of different names into its order. -/
theorem entries_ofList_perm {bindings : List (String × α)}
    (distinct : (bindings.map Prod.fst).Nodup) : (ofList bindings).entries.Perm bindings := by
  have unique : (ofList bindings).entries.Nodup := (ofList bindings).nodup_names.of_map _
  apply (List.perm_ext_iff_of_nodup unique (distinct.of_map _)).mpr
  rintro ⟨name, value⟩
  rw [← get?_eq_some_iff_mem, get?_ofList distinct, lookup_eq_some_iff_mem distinct]

end KeyMap

namespace Json

mutual

/-- No number of a value is a double. -/
def Doubleless : Json → Prop
  | null | bool _ | string _ | number (.int _) => True
  | number (.double _) => False
  | array items => DoublelessItems items
  | object members => DoublelessMembers members

def DoublelessItems : List Json → Prop
  | [] => True
  | item :: items => Doubleless item ∧ DoublelessItems items

def DoublelessMembers : List (String × Json) → Prop
  | [] => True
  | (_, value) :: members => Doubleless value ∧ DoublelessMembers members

end

end Json

namespace Document

variable {levels : Nat}

mutual

/-- A canonical value is the value of its document. -/
theorem toJson?_ofJson : ∀ (value : Json) {levels : Nat}, value.Canonical →
    (ofJson value).depth ≤ levels → toJson? levels (ofJson value) = some value
  | .null, _, _, _ | .bool _, _, _, _ | .number _, _, _, _ | .string _, _, _, _ => by
      simp [ofJson, toJson?]
  | .array items, 0, _, within => absurd within (Nat.not_succ_le_zero _)
  | .object members, 0, _, within => absurd within (Nat.not_succ_le_zero _)
  | .array items, levels + 1, canonical, within => by
      rw [ofJson, toJson?, itemsToJson?_ofItems items canonical (Nat.le_of_succ_le_succ within)]
      rfl
  | .object members, levels + 1, canonical, within => by
      obtain ⟨ascending, canonical⟩ := canonical
      have map := KeyMap.ofList_entries ⟨members, ascending⟩
      rw [ofJson, toJson?,
        membersToJson?_ofMembers members canonical (Nat.le_of_succ_le_succ within)]
      simp only [Option.map_some, map, Json.ofMap]

theorem itemsToJson?_ofItems : ∀ (items : List Json) {levels : Nat}, Json.CanonicalItems items →
    depthOfItems (ofItems items) ≤ levels → itemsToJson? levels (ofItems items) = some items
  | [], _, _, _ => by simp [ofItems, itemsToJson?]
  | item :: items, levels, canonical, within => by
      obtain ⟨first, later⟩ := Nat.max_le.mp within
      simp [ofItems, itemsToJson?, toJson?_ofJson item canonical.1 first,
        itemsToJson?_ofItems items canonical.2 later]

theorem membersToJson?_ofMembers : ∀ (members : List (String × Json)) {levels : Nat},
    Json.CanonicalMembers members → depthOfMembers (ofMembers members) ≤ levels →
      membersToJson? levels (ofMembers members) = some members
  | [], _, _, _ => by simp [ofMembers, membersToJson?]
  | (name, value) :: members, levels, canonical, within => by
      obtain ⟨first, later⟩ := Nat.max_le.mp within
      simp [ofMembers, membersToJson?, toJson?_ofJson value canonical.1 first,
        membersToJson?_ofMembers members canonical.2 later]

end

mutual

/-- The document of a canonical value without doubles is exact. -/
theorem exact_ofJson : ∀ value : Json, value.Canonical → value.Doubleless → (ofJson value).Exact
  | .null, _, _ => .null
  | .bool value, _, _ => .bool value
  | .number (.int _), inRange, _ => .int inRange.1 inRange.2
  | .string value, _, _ => .string value
  | .array items, canonical, doubleless => .list (exact_ofItems items canonical doubleless)
  | .object members, canonical, doubleless =>
      .record (exact_ofMembers members canonical.2 doubleless)

theorem exact_ofItems : ∀ items : List Json, Json.CanonicalItems items →
    Json.DoublelessItems items → ∀ item ∈ ofItems items, item.Exact
  | [], _, _ => by simp [ofItems]
  | item :: items, canonical, doubleless => by
      rw [ofItems, List.forall_mem_cons]
      exact ⟨exact_ofJson item canonical.1 doubleless.1,
        exact_ofItems items canonical.2 doubleless.2⟩

theorem exact_ofMembers : ∀ members : List (String × Json), Json.CanonicalMembers members →
    Json.DoublelessMembers members → ∀ entry ∈ ofMembers members, entry.2.Exact
  | [], _, _ => by simp [ofMembers]
  | (name, value) :: members, canonical, doubleless => by
      rw [ofMembers, List.forall_mem_cons]
      exact ⟨exact_ofJson value canonical.1 doubleless.1,
        exact_ofMembers members canonical.2 doubleless.2⟩

end

theorem exists_itemsToJson? {items : List Document}
    (each : ∀ item ∈ items, ∃ value, toJson? levels item = some value) :
    ∃ values, itemsToJson? levels items = some values := by
  induction items with
  | nil => exact ⟨[], by simp [itemsToJson?]⟩
  | cons item items induction =>
      obtain ⟨value, first⟩ := each item List.mem_cons_self
      obtain ⟨values, later⟩ := induction fun other member =>
        each other (List.mem_cons_of_mem _ member)
      exact ⟨value :: values, by simp [itemsToJson?, first, later]⟩

theorem exists_membersToJson? {members : List (String × Document)}
    (each : ∀ entry ∈ members, ∃ value, toJson? levels entry.2 = some value) :
    ∃ values, membersToJson? levels members = some values := by
  induction members with
  | nil => exact ⟨[], by simp [membersToJson?]⟩
  | cons entry members induction =>
      obtain ⟨value, first⟩ := each entry List.mem_cons_self
      obtain ⟨values, later⟩ := induction fun other member =>
        each other (List.mem_cons_of_mem _ member)
      exact ⟨(entry.1, value) :: values, by simp [membersToJson?, first, later]⟩

/-- An exact document has a value, if its levels are admitted. -/
theorem Exact.exists_toJson? {document : Document} (exact : document.Exact) {levels : Nat}
    (within : document.depth ≤ levels) : ∃ value, toJson? levels document = some value := by
  induction exact generalizing levels with
  | null | bool | int | string => simp [toJson?]
  | @list items _ induction =>
      cases levels with
      | zero => exact absurd within (Nat.not_succ_le_zero _)
      | succ levels =>
          have shallow := depth_list_le_iff.mp within
          obtain ⟨values, found⟩ := exists_itemsToJson? fun item member =>
            induction item member (shallow item member)
          exact ⟨.array values, by simp [toJson?, found]⟩
  | @record members _ induction =>
      cases levels with
      | zero => exact absurd within (Nat.not_succ_le_zero _)
      | succ levels =>
          have shallow := depth_record_le_iff.mp within
          obtain ⟨values, found⟩ := exists_membersToJson? fun entry member =>
            induction entry member (shallow entry member)
          exact ⟨.ofMap (KeyMap.ofList values), by simp [toJson?, found]⟩

end Document

theorem Json.canonical_int {value : Int} (least : Document.leastInt ≤ value)
    (greatest : value < Text.naturalLimit) : (Json.int value).Canonical :=
  ⟨least, greatest⟩

/-- The values of parameters are canonical, as every reader makes them, and without
doubles. -/
def Params.Exact (params : Params) : Prop :=
  Json.CanonicalMembers params.entries ∧ Json.DoublelessMembers params.entries

theorem Params.exact_empty : Params.Exact ∅ :=
  ⟨trivial, trivial⟩

namespace Document

variable {params : Params} {levels : Nat}

theorem exact_ofParams (exact : params.Exact) : (ofParams params).Exact :=
  .record (exact_ofMembers params.entries exact.1 exact.2)

theorem params?_ofParams (exact : params.Exact) (within : (ofParams params).depth ≤ levels) :
    params? levels (ofParams params) = some params := by
  have inside : depthOfMembers (ofMembers params.entries) ≤ levels - 1 :=
    Nat.le_sub_one_of_lt within
  rw [ofParams, params?, membersToJson?_ofMembers params.entries exact.1 inside]
  exact congrArg some params.ofList_entries

section Fields

variable {known : List Field} {members : List (String × Document)} {name : String}

theorem gather_of_nodup (distinct : (members.map Prod.fst).Nodup) (name : String) :
    gather ⟨name, []⟩ members =
      some ((members.lookup name).map fun content => (name, content)).toList := by
  have matching : members.filter (fun entry => Field.goesBy ⟨name, []⟩ entry.1) =
      ((members.lookup name).map fun content => (name, content)).toList := by
    induction members with
    | nil => rfl
    | cons entry members induction =>
        obtain ⟨absent, distinct⟩ := List.nodup_cons.mp distinct
        rw [List.filter_cons, lookup_cons_eq_ite, induction distinct]
        by_cases same : name = entry.1
        · subst same
          have missing : members.lookup entry.1 = none := lookup_eq_none_of_notMem absent
          simp [Field.goesBy, missing]
        · simp [Field.goesBy, same, Ne.symm same]
  unfold gather
  rw [matching]
  cases members.lookup name <;> rfl

/-- Of members that bear different names, each known name gathers its own. -/
theorem exists_gatherAll (plain : ∀ field ∈ known, field.aliases = [])
    (distinct : (members.map Prod.fst).Nodup) :
    ∃ fields, gatherAll known members = some fields ∧ ∀ name, fields.lookup name =
      if name ∈ known.map Field.name then members.lookup name else none := by
  induction known with
  | nil => exact ⟨[], rfl, fun _ => rfl⟩
  | cons field known induction =>
      obtain ⟨first, others⟩ := List.forall_mem_cons.mp plain
      obtain ⟨fields, gathered, found⟩ := induction others
      obtain ⟨own, aliases⟩ := field
      obtain rfl : aliases = [] := first
      refine ⟨((members.lookup own).map fun content => (own, content)).toList ++ fields, ?_, ?_⟩
      · rw [gatherAll, gather_of_nodup distinct, gathered]
        rfl
      · intro name
        rw [List.lookup_append, found]
        by_cases same : name = own
        · subst same
          cases members.lookup name <;> simp
        · cases members.lookup own <;> simp [lookup_cons_eq_ite, same]

/-- A record whose members are some of the known fields, in order, has under each known
name the content of the member of that name. -/
theorem exists_fields? (plain : ∀ field ∈ known, field.aliases = [])
    (distinct : (known.map Field.name).Nodup)
    (names : (members.map Prod.fst).Sublist (known.map Field.name)) :
    ∃ fields, fields? known (record members) = some fields ∧
      ∀ name ∈ known.map Field.name, fields.lookup name = members.lookup name := by
  obtain ⟨fields, gathered, found⟩ := exists_gatherAll plain (names.nodup distinct)
  refine ⟨fields, gathered, ?_⟩
  intro name listed
  rw [found, if_pos listed]

end Fields

section Members

variable {name key : String} {content : Document} {write : α → Document}

@[simp] theorem lookup_member :
    (member name content).lookup key = if key = name then some content else none :=
  lookup_cons_eq_ite _

@[simp] theorem lookup_member? (value : Option α) :
    (member? name write value).lookup key = if key = name then value.map write else none := by
  cases value with
  | none => simp [member?]
  | some value => exact lookup_cons_eq_ite _

@[simp] theorem lookup_listMember (items : List α) :
    (listMember name write items).lookup key =
      if key = name ∧ items ≠ [] then some (list (items.map write)) else none := by
  cases items with
  | nil => simp [listMember]
  | cons item items => simp [listMember, lookup_cons_eq_ite]

@[simp] theorem forall_member {motive : Document → Prop} :
    (∀ entry ∈ member name content, motive entry.2) ↔ motive content := by
  simp [member]

@[simp] theorem forall_member? {motive : Document → Prop} (value : Option α) :
    (∀ entry ∈ member? name write value, motive entry.2) ↔
      ∀ present ∈ value, motive (write present) := by
  cases value <;> simp [member?]

@[simp] theorem forall_listMember {motive : Document → Prop} (items : List α) :
    (∀ entry ∈ listMember name write items, motive entry.2) ↔
      (items ≠ [] → motive (list (items.map write))) := by
  cases items <;> simp [listMember]

theorem names_member? (value : Option α) :
    ((member? name write value).map Prod.fst).Sublist [name] := by
  cases value with
  | none => exact List.nil_sublist _
  | some value => exact List.Sublist.refl _

theorem names_listMember (items : List α) :
    ((listMember name write items).map Prod.fst).Sublist [name] := by
  cases items with
  | nil => exact List.nil_sublist _
  | cons item items => exact List.Sublist.refl _

end Members

section Reading

variable {read : Document → Option α} {write : α → Document}

theorem list?_eq {items : List α} {documents : List Document}
    (reads : List.Forall₂ (fun item document => read document = some item) items documents) :
    list? read (list documents) = some items := by
  rw [list?]
  induction reads with
  | nil => rfl
  | cons first later induction =>
      rw [List.mapM_cons, first, induction]
      rfl

theorem list?_map {items : List α} (reads : ∀ item ∈ items, read (write item) = some item) :
    list? read (list (items.map write)) = some items := by
  refine list?_eq (List.forall₂_map_right_iff.mpr ?_)
  exact List.forall₂_same.mpr reads

theorem strings?_strings (values : List String) : list? string? (strings values) = some values :=
  list?_map fun _ _ => rfl

theorem nat?_nat {value : Nat} (fits : value < Text.naturalLimit) :
    nat? (nat value) = some value := by
  have inRange : (0 : Int) ≤ value ∧ (value : Int) < Text.naturalLimit :=
    ⟨Int.natCast_nonneg value, Int.ofNat_lt.mpr fits⟩
  rw [nat, nat?, if_pos inRange, Int.toNat_natCast]

theorem exact_nat {value : Nat} (fits : value < Text.naturalLimit) : (nat value).Exact :=
  .int (Int.le_trans (by decide) (Int.natCast_nonneg value)) (Int.ofNat_lt.mpr fits)

namespace Fields

variable {fields : Fields} {name : String}

theorem required_eq {content : Document} (found : fields.lookup name = some content) :
    fields.required name read = read content := by
  rw [required, found, Option.bind_some]

theorem optional_eq {value : Option α} (found : fields.lookup name = value.map write)
    (notNull : ∀ content, write content ≠ .null)
    (reads : ∀ content, read (write content) = some content) :
    fields.optional name read = some value := by
  rw [optional, found]
  cases value with
  | none => rfl
  | some content =>
      have present := notNull content
      simp [reads]

theorem optional_string {text : Option String} (found : fields.lookup name = text.map .string) :
    fields.optional name string? = some text := by
  refine optional_eq found ?_ ?_
  · exact fun _ => Document.noConfusion
  · exact fun _ => rfl

theorem withDefault_eq {content : Document} {value : α}
    (found : fields.lookup name = some content) :
    fields.withDefault name read value = read content := by
  rw [withDefault, found]

theorem withDefault_list_eq {items : List α}
    (found : fields.lookup name = if items ≠ [] then some (list (items.map write)) else none)
    (reads : ∀ item ∈ items, read (write item) = some item) :
    fields.withDefault name (list? read) [] = some items := by
  rw [withDefault, found]
  cases items with
  | nil => rfl
  | cons item items => exact list?_map reads

end Fields

end Reading

end Document

end Workflow
