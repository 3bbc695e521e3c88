import Workflow.Proofs.Records
import Workflow.Proofs.Store

/-!
# Places of bindings

A store can keep a table of the places of its bindings beside them, so that a look-up
goes to its place and searches nothing.  Whatever is bound, and whatever is refused, the
table stays in step with the bindings: it has the place of each bound name and nothing
else.  So such a store tells what a store without a table tells.
-/

namespace Workflow

/-- The store after all bindings that are not refused, one after another. -/
def Store.bindAll (store : Store) (bindings : List (String × Value)) : Store :=
  bindings.foldl (fun store binding =>
    (store.bind binding.1 binding.2).toOption.getD store) store

/-- A store with a table of the places of its bindings. -/
structure IndexedStore extends Store where
  positions : KeyMap Nat := ∅

namespace IndexedStore

/-- Whether a name has a place. -/
def contains (store : IndexedStore) (name : String) : Bool :=
  store.positions.contains name

/-- The value at the place of a name. -/
def get? (store : IndexedStore) (name : String) : Option Value :=
  (store.positions.get? name).bind fun place => store.entries[place]?.map Prod.snd

/-- Binds a name that has no place yet.  There is a store afterwards in any case. -/
def bind (store : IndexedStore) (name : String) (value : Value) :
    Except RunError Unit × IndexedStore :=
  if store.contains name then
    (.error (.variableConflict name), store)
  else
    (.ok (),
      { entries := store.entries ++ [(name, value)]
        positions := store.positions.insert name store.entries.length })

/-- The store after all bindings that are not refused, one after another. -/
def bindAll (store : IndexedStore) (bindings : List (String × Value)) : IndexedStore :=
  bindings.foldl (fun store binding => (store.bind binding.1 binding.2).2) store

/-- The store with one more binding, unless that is refused. -/
def extend (store : IndexedStore) (binding : String × Value) : Except RunError IndexedStore :=
  (store.bind binding.1 binding.2).1.map fun _ => (store.bind binding.1 binding.2).2

/-- The store of the values that a run starts with: their names are bound in ascending
order, up to the first that is refused.  Of two values of a name the later counts. -/
def ofInitial (initial : List (String × Value)) : Except RunError IndexedStore :=
  (KeyMap.ofList initial).entries.foldlM extend {}

/-- No name is bound twice, and the table has the place of each name. -/
structure InStep (store : IndexedStore) : Prop where
  distinct : store.names.Nodup
  places : ∀ name place,
    store.positions.get? name = some place ↔ store.names[place]? = some name

variable {store : IndexedStore} {name : String} {value : Value}

namespace InStep

theorem contains_iff (inStep : store.InStep) : store.contains name ↔ name ∈ store.names := by
  simp only [contains, KeyMap.contains, Option.isSome_iff_exists, inStep.places,
    List.mem_iff_getElem?]

theorem get?_eq_some (inStep : store.InStep) :
    store.get? name = some value ↔ (name, value) ∈ store.entries := by
  simp only [get?, Option.bind_eq_some_iff, Option.map_eq_some_iff, inStep.places,
    Store.names, List.getElem?_map]
  constructor
  · intro looked
    obtain ⟨place, ⟨⟨other, held⟩, found, rfl⟩, ⟨again, refound, rfl⟩⟩ := looked
    obtain rfl := Option.some.inj (found.symm.trans refound)
    exact List.mem_of_getElem? found
  · intro member
    obtain ⟨place, found⟩ := List.mem_iff_getElem?.mp member
    exact ⟨place, ⟨_, found, rfl⟩, ⟨_, found, rfl⟩⟩

theorem get?_eq (inStep : store.InStep) (name : String) :
    store.get? name = store.toStore.get? name := by
  apply Option.ext
  intro value
  rw [inStep.get?_eq_some]
  exact (lookup_eq_some_iff_mem inStep.distinct).symm

theorem position?_eq (inStep : store.InStep) (name : String) :
    store.positions.get? name = store.toStore.position? name := by
  apply Option.ext
  intro place
  rw [inStep.places, Store.position?, Store.names, List.getElem?_map, Option.map_eq_some_iff]
  constructor
  · intro tabled
    obtain ⟨entry, found, rfl⟩ := tabled
    exact findIdx?_of_nodup inStep.distinct found
  · intro searched
    obtain ⟨inRange, here, -⟩ := List.findIdx?_eq_some_iff_getElem.mp searched
    exact ⟨_, List.getElem?_eq_getElem inRange, of_decide_eq_true here⟩

end InStep

theorem bind_bound (inStep : store.InStep) (bound : name ∈ store.names) (value : Value) :
    store.bind name value = (.error (.variableConflict name), store) := by
  rw [bind, if_pos (inStep.contains_iff.mpr bound)]

theorem bind_unbound (inStep : store.InStep) (unbound : name ∉ store.names) (value : Value) :
    store.bind name value =
      (.ok (),
        { entries := store.entries ++ [(name, value)]
          positions := store.positions.insert name store.entries.length }) := by
  rw [bind, if_neg fun contained => unbound (inStep.contains_iff.mp contained)]

theorem inStep_empty : InStep {} where
  distinct := List.nodup_nil
  places name place := by
    rw [show (∅ : KeyMap Nat).get? name = none from rfl]
    simp [Store.names]

theorem getElem?_concat_eq_some {items : List α} {item other : α} {place : Nat} :
    (items ++ [item])[place]? = some other ↔
      items[place]? = some other ∨ place = items.length ∧ item = other := by
  rcases Nat.lt_trichotomy place items.length with inside | rfl | outside
  · rw [List.getElem?_append_left inside]
    simp [inside.ne]
  · simp
  · have beyond : (items ++ [item]).length ≤ place := by
      rw [List.length_append]
      exact outside
    rw [List.getElem?_eq_none beyond, List.getElem?_eq_none outside.le]
    simp [outside.ne']

/-- Binding a name, or refusing it, keeps the table in step. -/
theorem InStep.bind (inStep : store.InStep) (name : String) (value : Value) :
    (store.bind name value).2.InStep := by
  by_cases bound : name ∈ store.names
  · rw [bind_bound inStep bound]
    exact inStep
  · rw [bind_unbound inStep bound]
    have names : (store.entries ++ [(name, value)]).map Prod.fst = store.names ++ [name] := by
      simp [Store.names]
    constructor
    · rw [Store.names, names, ← List.concat_eq_append]
      exact inStep.distinct.concat bound
    · intro other place
      rw [KeyMap.get?_insert, Store.names, names, getElem?_concat_eq_some, ← inStep.places]
      by_cases same : other = name
      · subst same
        have absent : store.positions.get? other ≠ some place := by
          rw [ne_eq, inStep.places]
          exact fun found => bound (List.mem_of_getElem? found)
        simp [absent, Store.names, eq_comm]
      · simp [same, Ne.symm same]

theorem InStep.bindAll (inStep : store.InStep) (bindings : List (String × Value)) :
    (store.bindAll bindings).InStep := by
  induction bindings generalizing store with
  | nil => exact inStep
  | cons binding bindings induction => exact induction (inStep.bind binding.1 binding.2)

theorem bind_answer (inStep : store.InStep) (name : String) (value : Value) :
    store.toStore.bind name value =
      (store.bind name value).1.map fun _ => (store.bind name value).2.toStore := by
  by_cases bound : name ∈ store.names
  · rw [bind_bound inStep bound, Store.bind, if_pos (Store.contains_iff_mem.mpr bound)]
    rfl
  · rw [bind_unbound inStep bound]
    exact Store.bind_eq_ok.mpr ⟨bound, rfl⟩

theorem toStore_bind (inStep : store.InStep) (name : String) (value : Value) :
    (store.bind name value).2.toStore =
      (store.toStore.bind name value).toOption.getD store.toStore := by
  rw [bind_answer inStep]
  by_cases bound : name ∈ store.names
  · rw [bind_bound inStep bound]
    rfl
  · rw [bind_unbound inStep bound]
    rfl

theorem toStore_bindAll (inStep : store.InStep) (bindings : List (String × Value)) :
    (store.bindAll bindings).toStore = store.toStore.bindAll bindings := by
  induction bindings generalizing store with
  | nil => rfl
  | cons binding bindings induction =>
      rw [bindAll, Store.bindAll, List.foldl_cons, List.foldl_cons, ← toStore_bind inStep]
      exact induction (inStep.bind binding.1 binding.2)

theorem exists_extended {bindings : List (String × Value)} (inStep : store.InStep)
    (fresh : (store.names ++ bindings.map Prod.fst).Nodup) :
    ∃ next, bindings.foldlM extend store = .ok next ∧ next.InStep ∧
      next.entries = store.entries ++ bindings := by
  induction bindings generalizing store with
  | nil => exact ⟨store, rfl, inStep, (List.append_nil _).symm⟩
  | cons binding bindings induction =>
      obtain ⟨name, value⟩ := binding
      have unbound : name ∉ store.names := by
        intro bound
        exact (List.nodup_append.mp fresh).2.2 name bound name (by simp) rfl
      have bound := bind_unbound inStep unbound value
      have stillInStep := inStep.bind name value
      rw [bound] at stillInStep
      have names : store.names ++ (name :: bindings.map Prod.fst) =
          (store.entries ++ [(name, value)]).map Prod.fst ++ bindings.map Prod.fst := by
        simp [Store.names]
      rw [List.map_cons, names] at fresh
      obtain ⟨next, made, nextInStep, entries⟩ := induction stillInStep fresh
      refine ⟨next, ?_, nextInStep, by simpa using entries⟩
      rw [List.foldlM_cons, extend, bound]
      exact made

/-- The initial values are bound as a map lists them. -/
theorem exists_ofInitial (initial : List (String × Value)) :
    ∃ start, ofInitial initial = .ok start ∧ start.InStep ∧
      start.toStore = Store.ofInitial (KeyMap.ofList initial) := by
  have fresh := (KeyMap.ofList initial).nodup_names
  obtain ⟨start, made, inStep, entries⟩ :=
    exists_extended inStep_empty (by simpa [Store.names, KeyMap.names] using fresh)
  refine ⟨start, made, inStep, ?_⟩
  rw [Store.ofInitial, ← List.nil_append (KeyMap.ofList initial).entries]
  exact congrArg Store.mk entries

/-- All ways to ask a store tell of the same bindings, and binding a name adds it at the
end or changes nothing. -/
structure Faithful (store : IndexedStore) : Prop where
  distinct : store.names.Nodup
  /-- The table has the place of each binding under its name, and nothing else. -/
  places : ∀ name place, store.positions.get? name = some place ↔
    ∃ value, store.entries[place]? = some (name, value)
  found : ∀ name value, store.get? name = some value ↔ (name, value) ∈ store.entries
  contained : ∀ name, store.contains name ↔ name ∈ store.names
  counted : store.size = store.names.length
  mapped : store.toMap.entries.Perm store.entries
  /-- A new name is bound behind the others, and no other name is found differently. -/
  fresh : ∀ name value, name ∉ store.names →
    (store.bind name value).1 = .ok () ∧
      (store.bind name value).2.entries = store.entries ++ [(name, value)] ∧
      ∀ other, (store.bind name value).2.get? other =
        if other = name then some value else store.get? other
  /-- A bound name is refused. -/
  bound : ∀ name value, name ∈ store.names →
    store.bind name value = (.error (.variableConflict name), store)
  /-- A store without a table finds the same. -/
  searched : ∀ name, store.toStore.get? name = store.get? name ∧
    store.toStore.contains name = store.contains name ∧
    store.toStore.position? name = store.positions.get? name
  /-- A store without a table answers the same. -/
  answered : ∀ name value, store.toStore.bind name value =
    (store.bind name value).1.map fun _ => (store.bind name value).2.toStore

theorem InStep.faithful (inStep : store.InStep) : store.Faithful where
  distinct := inStep.distinct
  places name place := by
    rw [inStep.places, Store.names, List.getElem?_map, Option.map_eq_some_iff]
    simp
  found name value := inStep.get?_eq_some
  contained name := inStep.contains_iff
  counted := (List.length_map _).symm
  mapped := KeyMap.entries_ofList_perm inStep.distinct
  fresh name value unbound := by
    have nextInStep := inStep.bind name value
    rw [bind_unbound inStep unbound value] at nextInStep ⊢
    refine ⟨rfl, rfl, ?_⟩
    intro other
    rw [nextInStep.get?_eq, inStep.get?_eq, Store.get?, Store.get?, List.lookup_append,
      lookup_cons_eq_ite]
    split
    · rename_i same
      rw [same, lookup_eq_none_of_notMem unbound, Option.none_or]
    · exact Option.or_none
  bound name value bound := bind_bound inStep bound value
  searched name := by
    refine ⟨(inStep.get?_eq name).symm, ?_, (inStep.position?_eq name).symm⟩
    rw [Bool.eq_iff_iff, Store.contains_iff_mem, inStep.contains_iff]
  answered := bind_answer inStep

/-- The initial values are always bound, in ascending order of name, and the last value
of each name counts.  After any further bindings, made or refused, the store is faithful
and has what a store without a table has. -/
theorem stays_faithful (initial history : List (String × Value)) :
    ∃ start, ofInitial initial = .ok start ∧ start.names.Pairwise (· < ·) ∧
      (∀ name, start.get? name = initial.reverse.lookup name) ∧
      (start.bindAll history).Faithful ∧
      (start.bindAll history).toStore =
        (Store.ofInitial (KeyMap.ofList initial)).bindAll history := by
  obtain ⟨start, made, inStep, same⟩ := exists_ofInitial initial
  refine ⟨start, made, ?_, ?_, (inStep.bindAll history).faithful, ?_⟩
  · rw [same]
    exact (KeyMap.ofList initial).ascending
  · intro name
    rw [inStep.get?_eq, same]
    exact (KeyMap.get?_foldl_insert initial .empty name).trans (Option.or_none)
  · rw [toStore_bindAll inStep, same]

/-- A store after its initial values, a new name and one that is refused. -/
example :
    (ofInitial [("zeta", .data "z"), ("alpha", .data "a")]).map (fun start =>
      let store := start.bindAll [("middle", .data "m"), ("zeta", .data "other")]
      (store.names, store.positions.get? "zeta", store.get? "zeta")) =
      .ok (["alpha", "zeta", "middle"], some 1, some (.data "z")) := by
  decide

end IndexedStore

end Workflow
