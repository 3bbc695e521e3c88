import Mathlib.Data.List.Nodup
import Mathlib.Data.List.Sort
import Workflow.KeyMap

/-!
# Looking names up

Where no name is bound twice, a list of bindings is as good as the set of its
members: a look-up finds what is listed, in whatever order.  Maps keep their
bindings in one order, so a map is determined by what it finds.  Where the last
item of a list counts, it is found from behind.
-/

namespace Workflow

/-- An item counts, and none that comes after it does. -/
def Last (counts : α → Prop) (items : List α) (item : α) : Prop :=
  ∃ before after, items = before ++ item :: after ∧ counts item ∧ ∀ later ∈ after, ¬counts later

section Last

variable {counts : α → Prop} [DecidablePred counts] {items : List α} {item : α}

theorem find?_reverse_eq_some :
    items.reverse.find? (fun item => counts item) = some item ↔ Last counts items item := by
  rw [List.find?_eq_some_iff_append]
  constructor
  · rintro ⟨found, after, before, reversed, others⟩
    refine ⟨before.reverse, after.reverse, ?_, by simpa using found, ?_⟩
    · rw [← List.reverse_inj, reversed]
      simp
    · intro later member
      simpa using others later (List.mem_reverse.mp member)
  · rintro ⟨before, after, rfl, found, others⟩
    refine ⟨by simpa using found, after.reverse, before.reverse, by simp, ?_⟩
    intro later member
    simpa using others later (List.mem_reverse.mp member)

theorem find?_reverse_eq_none :
    items.reverse.find? (fun item => counts item) = none ↔ ∀ item ∈ items, ¬counts item := by
  simp

/-- A search from behind that goes on in other items when nothing counts. -/
theorem or_find?_reverse_eq_some {others : List α} {fallback : α → Prop}
    [DecidablePred fallback] :
    (items.reverse.find? fun item => counts item).or
        (others.reverse.find? fun item => fallback item) = some item ↔
      Last counts items item ∨
        (∀ other ∈ items, ¬counts other) ∧ Last fallback others item := by
  rw [Option.or_eq_some_iff, find?_reverse_eq_some, find?_reverse_eq_none, find?_reverse_eq_some]

end Last

variable {bindings others : List (String × α)} {name : String} {value : α}

theorem mem_of_lookup_eq_some (found : bindings.lookup name = some value) :
    (name, value) ∈ bindings := by
  obtain ⟨before, after, rfl, -⟩ := List.lookup_eq_some_iff.mp found
  simp

/-- A name that is bound once is found with the value that it is listed with. -/
theorem lookup_eq_some_iff_mem (distinct : (bindings.map Prod.fst).Nodup) :
    bindings.lookup name = some value ↔ (name, value) ∈ bindings := by
  constructor
  · exact mem_of_lookup_eq_some
  · intro listed
    cases found : bindings.lookup name with
    | none =>
        have absent := List.lookup_eq_none_iff.mp found _ listed
        simp at absent
    | some other =>
        have equal := List.inj_on_of_nodup_map distinct (mem_of_lookup_eq_some found) listed rfl
        simpa using equal

theorem lookup_perm (permutation : bindings.Perm others)
    (distinct : (bindings.map Prod.fst).Nodup) (name : String) :
    bindings.lookup name = others.lookup name := by
  have othersDistinct : (others.map Prod.fst).Nodup :=
    (permutation.map Prod.fst).nodup_iff.mp distinct
  apply Option.ext
  intro value
  rw [lookup_eq_some_iff_mem distinct, lookup_eq_some_iff_mem othersDistinct,
    permutation.mem_iff]

/-- An item is found by a key that no other item has. -/
theorem findIdx?_of_nodup {items : List α} {key : α → String} (distinct : (items.map key).Nodup)
    {i : Nat} {item : α} (here : items[i]? = some item) :
    (items.findIdx? fun other => key other = key item) = some i := by
  obtain ⟨inRange, rfl⟩ := List.getElem?_eq_some_iff.mp here
  refine List.findIdx?_eq_some_iff_getElem.mpr ⟨inRange, by simp, ?_⟩
  intro j earlier same
  have known : j < items.length := earlier.trans inRange
  have places : (items.map key)[j]? = (items.map key)[i]? := by
    simpa [known, inRange] using same
  exact absurd ((List.getElem?_inj (by simpa using known) distinct).mp places) earlier.ne

theorem lookup_cons_eq_ite (binding : String × α) :
    (binding :: bindings).lookup name =
      if name = binding.1 then some binding.2 else bindings.lookup name := by
  obtain ⟨first, held⟩ := binding
  by_cases same : name = first
  · simp [same]
  · have different : (name == first) = false := by simpa using same
    rw [if_neg same, List.lookup_cons, different]

theorem lookup_eq_none_of_notMem (absent : name ∉ bindings.map Prod.fst) :
    bindings.lookup name = none := by
  rw [List.lookup_eq_none_iff]
  intro binding member
  have different : name ≠ binding.1 := by
    rintro rfl
    exact absent (List.mem_map_of_mem member)
  simpa using different

theorem lookup_append_of_notMem (absent : name ∉ others.map Prod.fst) :
    (bindings ++ others).lookup name = bindings.lookup name := by
  rw [List.lookup_append, lookup_eq_none_of_notMem absent, Option.or_none]

namespace KeyMap

variable {map other : KeyMap α} {key : String}

theorem nodup_names (map : KeyMap α) : map.names.Nodup :=
  map.ascending.imp fun below => String.ne_of_lt below

/-- Maps that find the same values are equal. -/
theorem ext_get? (same : ∀ name, map.get? name = other.get? name) : map = other := by
  have ascending : ∀ map : KeyMap α, map.entries.Pairwise fun a b => a.1 < b.1 := by
    intro map
    exact List.pairwise_map.mp map.ascending
  have members : ∀ entry, entry ∈ map.entries ↔ entry ∈ other.entries := by
    intro entry
    obtain ⟨name, value⟩ := entry
    rw [← lookup_eq_some_iff_mem map.nodup_names, ← lookup_eq_some_iff_mem other.nodup_names]
    exact iff_of_eq (congrArg (· = some value) (same name))
  have entries : map.entries = other.entries := by
    have permutation := (List.perm_ext_iff_of_nodup (map.nodup_names.of_map _)
      (other.nodup_names.of_map _)).mpr members
    refine permutation.eq_of_pairwise ?_ (ascending map) (ascending other)
    intro a b _ _ below above
    exact absurd (String.lt_trans below above) (String.lt_irrefl _)
  cases map
  cases other
  simp_all

theorem lookup_insertEntry (entries : List (String × α)) :
    (insertEntry key value entries).lookup name =
      if name = key then some value else entries.lookup name := by
  induction entries with
  | nil => simp [insertEntry, lookup_cons_eq_ite]
  | cons entry rest induction =>
      by_cases before : key < entry.1
      · simp only [insertEntry, before, if_true, lookup_cons_eq_ite]
      · by_cases here : key = entry.1
        · by_cases same : name = key <;>
            simp [insertEntry, lookup_cons_eq_ite, ← here, same]
        · by_cases same : name = key
          · subst same
            simp [insertEntry, before, lookup_cons_eq_ite, here, induction]
          · simp [insertEntry, before, lookup_cons_eq_ite, here, induction, same]

theorem get?_insert (map : KeyMap α) :
    (map.insert key value).get? name = if name = key then some value else map.get? name :=
  lookup_insertEntry map.entries

theorem get?_eq_some_iff_mem : map.get? name = some value ↔ (name, value) ∈ map.entries :=
  lookup_eq_some_iff_mem map.nodup_names

theorem get?_filter (keep : String → α → Bool) :
    (map.filter keep).get? name = (map.get? name).filter (keep name) := by
  apply Option.ext
  intro value
  rw [get?_eq_some_iff_mem, Option.filter_eq_some_iff, get?_eq_some_iff_mem]
  exact List.mem_filter

theorem get?_filter_name (keep : String → Bool) :
    (map.filter fun name _ => keep name).get? name =
      if keep name then map.get? name else none := by
  rw [get?_filter]
  cases keep name <;> cases map.get? name <;> rfl

theorem get?_erase : (map.erase key).get? name = if name = key then none else map.get? name := by
  rw [erase, get?_filter_name]
  by_cases same : name = key <;> simp [same]

theorem erase_eq_self (absent : map.get? key = none) : map.erase key = map := by
  apply ext_get?
  intro name
  rw [get?_erase]
  split
  · rename_i same
    rw [same, absent]
  · rfl

theorem insert_eq_self (found : map.get? key = some value) : map.insert key value = map := by
  apply ext_get?
  intro name
  rw [get?_insert]
  split
  · rename_i same
    rw [same, found]
  · rfl

theorem insert_comm {second : String} {further : α} (different : key ≠ second) :
    (map.insert key value).insert second further =
      (map.insert second further).insert key value := by
  apply ext_get?
  intro name
  simp only [get?_insert]
  by_cases first : name = key
  · subst first
    simp [different]
  · simp [first]

end KeyMap

end Workflow
