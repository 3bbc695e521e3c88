import Workflow.Proofs.Outcome
import Workflow.Run.Store

/-!
# What stores bind

A store binds the names that it lists; binding a name that is not listed adds it
at the end.
-/

namespace Workflow.Store

variable {store : Store} {name : String}

theorem contains_iff_mem : store.contains name ↔ name ∈ store.names := by
  simp [contains, get?, names]

theorem exists_get? : (∃ value, store.get? name = some value) ↔ name ∈ store.names := by
  rw [← Option.isSome_iff_exists, ← contains_iff_mem]
  rfl

theorem get?_bound (unbound : name ∉ store.names) (value : Value) :
    get? ⟨store.entries ++ [(name, value)]⟩ name = some value := by
  have none : store.get? name = none := by
    rw [Option.eq_none_iff_forall_ne_some]
    intro other found
    exact unbound (exists_get?.mp ⟨other, found⟩)
  rw [get?] at none ⊢
  rw [List.lookup_append, none]
  simp

/-- A store that goes on from another one keeps its values. -/
theorem get?_of_prefix {other : Store} {value : Value} (continues : store.entries <+: other.entries)
    (found : store.get? name = some value) : other.get? name = some value := by
  obtain ⟨further, extended⟩ := continues
  rw [get?] at found ⊢
  rw [← extended, List.lookup_append, found]
  rfl

theorem names_ofInitial (initial : KeyMap Value) : (ofInitial initial).names = initial.names := rfl

theorem contains_ofInitial (initial : KeyMap Value) :
    (ofInitial initial).contains name = initial.contains name := rfl

theorem bind_eq_ok {value : Value} {next : Store} :
    store.bind name value = .ok next ↔
      name ∉ store.names ∧ next = ⟨store.entries ++ [(name, value)]⟩ := by
  rw [← contains_iff_mem]
  by_cases bound : store.contains name
  · simp [bind, bound]
  · simp [bind, bound, eq_comm]

end Workflow.Store
