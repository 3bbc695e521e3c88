import Mathlib.Data.List.Count
import Mathlib.Data.List.Perm.Basic
import Workflow.Proofs.Variables

/-!
# The inputs of nodes

`Supplied` says that names are the variables of the wires at some ports, one for
each wire, and that the sources offer them.  A single input is found exactly if
its name is supplied so.
-/

namespace Workflow

/-- Whether the port carries a prompt, reference images or an overlay. -/
def TargetPort.isReference : TargetPort → Bool
  | text | references | overlay _ => true
  | _ => false

def TargetPort.isOverlay : TargetPort → Bool
  | overlay _ => true
  | _ => false

def TargetPort.isSlot : TargetPort → Bool
  | slot _ => true
  | _ => false

namespace Lowering

/-- The wires that arrive at the accepted ports. -/
def through (accepts : TargetPort → Bool) (arriving : List Wire) : List Wire :=
  arriving.filter fun wire => accepts wire.arrives

/-- Every wire at an accepted port reads what its source offers. -/
def Offered (accepts : TargetPort → Bool) (arriving : List Wire) : Prop :=
  ∀ wire ∈ through accepts arriving, wire.source.Offers wire.leaves

/-- The names are the variables of the wires at the accepted ports, one for
each wire. -/
structure Supplied (accepts : TargetPort → Bool) (arriving : List Wire)
    (names : List String) : Prop where
  perm : names.Perm ((through accepts arriving).map Wire.variable)
  offered : Offered accepts arriving

variable {accepts others : TargetPort → Bool} {arriving : List Wire}

theorem length_through :
    (through accepts arriving).length = (arriving.map Wire.arrives).countP accepts := by
  rw [through, ← List.countP_eq_length_filter, List.countP_map]
  rfl

theorem mem_through {wire : Wire} :
    wire ∈ through accepts arriving ↔ wire ∈ arriving ∧ accepts wire.arrives := by
  simp [through]

theorem offered_or :
    Offered (fun port => accepts port || others port) arriving ↔
      Offered accepts arriving ∧ Offered others arriving := by
  simp only [Offered, mem_through, Bool.or_eq_true]
  constructor
  · intro offered
    exact ⟨fun wire arrives => offered wire ⟨arrives.1, Or.inl arrives.2⟩,
      fun wire arrives => offered wire ⟨arrives.1, Or.inr arrives.2⟩⟩
  · rintro ⟨first, second⟩ wire ⟨member, atFirst | atSecond⟩
    · exact first wire ⟨member, atFirst⟩
    · exact second wire ⟨member, atSecond⟩

theorem through_append {further : List Wire} :
    through accepts (arriving ++ further) = through accepts arriving ++ through accepts further :=
  List.filter_append _ _

theorem offered_append {further : List Wire} :
    Offered accepts (arriving ++ further) ↔ Offered accepts arriving ∧ Offered accepts further := by
  simp [Offered, through_append, or_imp, forall_and]

/-- Ports that exclude each other supply their names together. -/
theorem through_or_perm (disjoint : ∀ port, accepts port → ¬others port) :
    (through accepts arriving ++ through others arriving).Perm
      (through (fun port => accepts port || others port) arriving) := by
  induction arriving with
  | nil => simp [through]
  | cons wire arriving induction =>
      simp only [through] at induction ⊢
      by_cases atFirst : accepts wire.arrives
      · have notSecond : ¬others wire.arrives := disjoint _ atFirst
        simpa [atFirst, notSecond] using induction
      · by_cases atSecond : others wire.arrives
        · simp only [List.filter_cons, atFirst, atSecond, Bool.or_true, if_true,
            Bool.false_eq_true, if_false]
          exact List.perm_middle.trans (induction.cons wire)
        · simpa [atFirst, atSecond] using induction

theorem Supplied.append {names further : List String}
    (supplied : Supplied accepts arriving names) (more : Supplied others arriving further)
    (disjoint : ∀ port, accepts port → ¬others port) :
    Supplied (fun port => accepts port || others port) arriving (names ++ further) where
  perm := by
    have both := supplied.perm.append more.perm
    rw [← List.map_append] at both
    exact both.trans ((through_or_perm disjoint).map Wire.variable)
  offered := offered_or.mpr ⟨supplied.offered, more.offered⟩

theorem singleInput?_eq_ok {node : Node} {port : String} {found : Option String} :
    singleInput? node arriving accepts port = .ok found ↔
      Supplied accepts arriving found.toList := by
  have supplied : Supplied accepts arriving found.toList ↔
      found.toList.Perm ((through accepts arriving).map Wire.variable) ∧
        ∀ wire ∈ through accepts arriving, wire.source.Offers wire.leaves :=
    ⟨fun both => ⟨both.perm, both.offered⟩, fun both => ⟨both.1, both.2⟩⟩
  rw [supplied]
  unfold singleInput?
  rw [show (arriving.filter fun wire => accepts wire.arrives) = through accepts arriving from rfl]
  rcases through accepts arriving with _ | ⟨first, _ | ⟨second, rest⟩⟩
  · cases found <;> simp
  · cases found with
    | none => simp
    | some name =>
        simp only [Outcome.map_eq_ok, sourceVariable_eq_ok, Option.some.injEq, Option.toList_some,
          List.map_cons, List.map_nil, List.perm_singleton, List.cons.injEq, and_true,
          List.forall_mem_singleton]
        constructor
        · intro success
          obtain ⟨_, ⟨offered, rfl⟩, rfl⟩ := success
          exact ⟨rfl, offered⟩
        · intro conditions
          obtain ⟨rfl, offered⟩ := conditions
          exact ⟨_, ⟨offered, rfl⟩, rfl⟩
  · simp only [reduceCtorEq, false_iff, not_and]
    intro permutation
    have lengths := permutation.length_eq
    cases found <;> simp at lengths

theorem singleInput_eq_ok {node : Node} {port message name : String} :
    singleInput node arriving accepts port message = .ok name ↔
      Supplied accepts arriving [name] := by
  simp only [singleInput, Outcome.bind_eq_ok, singleInput?_eq_ok]
  constructor
  · intro success
    obtain ⟨found, supplied, named⟩ := success
    cases found with
    | none => simp at named
    | some other =>
        simp only [Outcome.pure_eq_ok] at named
        exact named ▸ supplied
  · intro supplied
    exact ⟨some name, supplied, by simp⟩

theorem exists_singleInput? (node : Node) (port : String) :
    (∃ found, singleInput? node arriving accepts port = .ok found) ↔
      (arriving.map Wire.arrives).countP accepts ≤ 1 ∧ Offered accepts arriving := by
  simp only [singleInput?_eq_ok, ← length_through]
  constructor
  · intro success
    obtain ⟨found, supplied⟩ := success
    have lengths := supplied.perm.length_eq
    simp only [List.length_map] at lengths
    refine ⟨?_, supplied.offered⟩
    rw [← lengths]
    exact Option.length_toList_le
  · intro conditions
    obtain ⟨single, offered⟩ := conditions
    rcases ports : through accepts arriving with _ | ⟨wire, _ | ⟨second, rest⟩⟩
    · exact ⟨none, by simp [ports], offered⟩
    · exact ⟨some wire.variable, by simp [ports], offered⟩
    · simp [ports] at single

theorem exists_singleInput (node : Node) (port message : String) :
    (∃ name, singleInput node arriving accepts port message = .ok name) ↔
      (arriving.map Wire.arrives).countP accepts = 1 ∧ Offered accepts arriving := by
  simp only [singleInput_eq_ok, ← length_through]
  constructor
  · intro success
    obtain ⟨name, supplied⟩ := success
    have lengths := supplied.perm.length_eq
    simp only [List.length_map, List.length_singleton] at lengths
    exact ⟨lengths.symm, supplied.offered⟩
  · intro conditions
    obtain ⟨single, offered⟩ := conditions
    obtain ⟨wire, ports⟩ := List.length_eq_one_iff.mp single
    exact ⟨wire.variable, by simp [ports], offered⟩

end Lowering

end Workflow
