/-!
# Maps from names

`KeyMap α` maps names to values and keeps its entries in ascending order of
name, so that equal maps have equal entries.  The order of names is the order
of their code points.
-/

namespace Workflow

/-- A finite map from names; the entries ascend strictly by name. -/
structure KeyMap (α : Type u) where
  /-- The bindings in ascending order of name. -/
  entries : List (String × α)
  /-- No name occurs twice and the names ascend. -/
  ascending : (entries.map Prod.fst).Pairwise (· < ·)
  deriving DecidableEq

namespace KeyMap

/-- Places a binding among ascending entries; an older binding of the name
gives way. -/
def insertEntry (name : String) (value : α) : List (String × α) → List (String × α)
  | [] => [(name, value)]
  | entry :: rest =>
      if name < entry.1 then
        (name, value) :: entry :: rest
      else if name = entry.1 then
        (name, value) :: rest
      else
        entry :: insertEntry name value rest

theorem mem_names_insertEntry {name key : String} {value : α} :
    ∀ {entries : List (String × α)},
      key ∈ (insertEntry name value entries).map Prod.fst →
        key = name ∨ key ∈ entries.map Prod.fst
  | [], member => by simpa [insertEntry] using member
  | entry :: rest, member => by
      unfold insertEntry at member
      split at member
      · simpa using member
      · split at member
        · rcases List.mem_cons.mp member with same | inRest
          · exact Or.inl same
          · exact Or.inr (List.mem_cons_of_mem _ inRest)
        · rcases List.mem_cons.mp member with same | inRest
          · exact Or.inr (same ▸ List.mem_cons_self)
          · exact (mem_names_insertEntry inRest).imp id (List.mem_cons_of_mem _)

theorem ascending_insertEntry (name : String) (value : α) :
    ∀ {entries : List (String × α)},
      (entries.map Prod.fst).Pairwise (· < ·) →
        ((insertEntry name value entries).map Prod.fst).Pairwise (· < ·)
  | [], _ => List.pairwise_singleton _ _
  | entry :: rest, sorted => by
      obtain ⟨above, sortedRest⟩ := List.pairwise_cons.mp sorted
      unfold insertEntry
      split
      · rename_i below
        refine List.pairwise_cons.mpr ⟨?_, sorted⟩
        intro key member
        rcases List.mem_cons.mp member with same | inRest
        · exact same ▸ below
        · exact String.lt_trans below (above key inRest)
      · rename_i notBelow
        split
        · rename_i same
          exact List.pairwise_cons.mpr ⟨fun key inRest => same ▸ above key inRest, sortedRest⟩
        · rename_i different
          refine List.pairwise_cons.mpr ⟨?_, ascending_insertEntry name value sortedRest⟩
          intro key member
          rcases mem_names_insertEntry member with same | inRest
          · subst same
            have least : entry.1 ≤ key := String.not_lt.mp notBelow
            exact Decidable.byContradiction fun notAbove =>
              different (String.le_antisymm (String.not_lt.mp notAbove) least)
          · exact above key inRest

/-- The map without bindings. -/
def empty : KeyMap α := ⟨[], List.Pairwise.nil⟩

instance : EmptyCollection (KeyMap α) := ⟨empty⟩

instance : Inhabited (KeyMap α) := ⟨empty⟩

/-- The value bound to a name. -/
def get? (map : KeyMap α) (name : String) : Option α :=
  map.entries.lookup name

/-- Whether a name is bound. -/
def contains (map : KeyMap α) (name : String) : Bool :=
  (map.get? name).isSome

/-- The bound names in ascending order. -/
def names (map : KeyMap α) : List String :=
  map.entries.map Prod.fst

/-- The number of bindings. -/
def size (map : KeyMap α) : Nat :=
  map.entries.length

/-- Whether nothing is bound. -/
def isEmpty (map : KeyMap α) : Bool :=
  map.entries.isEmpty

/-- The map with a name bound to a value; an older binding of the name gives
way. -/
def insert (map : KeyMap α) (name : String) (value : α) : KeyMap α :=
  ⟨insertEntry name value map.entries, ascending_insertEntry name value map.ascending⟩

/-- The bindings that a test accepts. -/
def filter (map : KeyMap α) (keep : String → α → Bool) : KeyMap α :=
  ⟨map.entries.filter fun entry => keep entry.1 entry.2,
    map.ascending.sublist (List.filter_sublist.map Prod.fst)⟩

/-- The map without a binding of the name. -/
def erase (map : KeyMap α) (name : String) : KeyMap α :=
  map.filter fun key _ => key ≠ name

/-- The map of a list of bindings; of two bindings of a name the later
counts. -/
def ofList (bindings : List (String × α)) : KeyMap α :=
  bindings.foldl (fun map binding => map.insert binding.1 binding.2) empty

/-- The map with one binding. -/
def single (name : String) (value : α) : KeyMap α :=
  ofList [(name, value)]

end KeyMap

end Workflow
