import Workflow.Run.Error
import Workflow.Value.Document

/-!
# Stores

The variables of one run.  A name is bound once; the bindings keep the order in
which they were made.
-/

namespace Workflow

/-- The bindings of a run, the oldest first. -/
structure Store where
  entries : List (String × Value) := []
  deriving DecidableEq

namespace Store

/-- The value bound to a name. -/
def get? (store : Store) (name : String) : Option Value :=
  store.entries.lookup name

/-- Whether a name is bound. -/
def contains (store : Store) (name : String) : Bool :=
  (store.get? name).isSome

/-- The bound names in the order of binding. -/
def names (store : Store) : List String :=
  store.entries.map Prod.fst

/-- The number of bindings. -/
def size (store : Store) : Nat :=
  store.entries.length

/-- The place of a name among the bindings. -/
def position? (store : Store) (name : String) : Option Nat :=
  store.entries.findIdx? fun entry => entry.1 = name

/-- Binds a name that is not bound yet. -/
def bind (store : Store) (name : String) (value : Value) : Except RunError Store :=
  if store.contains name then
    .error (.variableConflict name)
  else
    .ok ⟨store.entries ++ [(name, value)]⟩

/-- The store of the values that a run starts with, in ascending order of
name. -/
def ofInitial (initial : KeyMap Value) : Store :=
  ⟨initial.entries⟩

/-- The bindings as a map. -/
def toMap (store : Store) : KeyMap Value :=
  KeyMap.ofList store.entries

def toDocument (store : Store) : Document :=
  .record (store.entries.map fun entry => (entry.1, entry.2.toDocument))

end Store

end Workflow
