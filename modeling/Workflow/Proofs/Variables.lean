import Mathlib.Data.List.Nodup
import Workflow.Compile.Lowering
import Workflow.Proofs.Outcome

/-!
# The variables of nodes

Which variables a node binds follows from its kind and its parameters alone, and
so does which of its ports an edge may leave.  The variable that a wire reads is
always one that its source binds.
-/

namespace Workflow

open Lowering

namespace Node

/-- The number that a parameter gives, if it is one between one and
`maxWidth`. -/
def width? (node : Node) (name : String) : Option Nat :=
  ((node.param? name).bind wholeNumber?).filter fun count => 1 ≤ count ∧ count ≤ maxWidth

def slots (node : Node) : Nat :=
  (node.width? "count").getD 0

/-- Every variable that a node binds, its own before those of its slots or its
context. -/
def outputs (node : Node) : List String :=
  match node.kind with
  | .save => []
  | .fanOut => node.id :: (List.range node.slots).map (slotVariable node.id)
  | .router =>
      node.id :: ((node.textParam? "contextProperty").map fun _ => contextVariable node.id).toList
  | .input | .generator | .transform | .vision | .text | .collect => [node.id]

/-- Whether an edge may leave a port of the node: not a save node, not a slot
beyond the count, and no context that the router does not have. -/
def Offers (node : Node) (port : SourcePort) : Prop :=
  match node.kind, port with
  | .save, _ => False
  | .fanOut, .slot slot => slot < node.slots
  | .router, .context => (node.textParam? "contextProperty").isSome
  | _, _ => True

end Node

/-- The variable that a wire reads if its source offers the port. -/
def Wire.variable (wire : Wire) : String :=
  match wire.source.kind, wire.leaves with
  | .fanOut, .slot slot => slotVariable wire.source.id slot
  | .router, .context => contextVariable wire.source.id
  | _, _ => wire.source.id

theorem countParam?_eq_ok {node : Node} {name : String} {found : Option Nat} :
    countParam? node name = .ok found ↔
      found = node.width? name ∧ (node.param? name = none ∨ (node.width? name).isSome) := by
  unfold countParam? Node.width?
  cases given : node.param? name with
  | none => simp [eq_comm]
  | some value =>
      cases number : wholeNumber? value with
      | none => simp [number]
      | some count =>
          by_cases usable : 1 ≤ count ∧ count ≤ maxWidth
          · simp [number, usable, Option.filter, eq_comm]
          · simp [number, usable]

theorem slotCount_eq_ok {node : Node} {count : Nat} :
    slotCount node = .ok count ↔ node.width? "count" = some count := by
  simp only [slotCount, Outcome.bind_eq_ok, countParam?_eq_ok]
  constructor
  · intro success
    obtain ⟨found, ⟨rfl, -⟩, counted⟩ := success
    cases width : node.width? "count" with
    | none => simp [width] at counted
    | some other =>
        simp only [width, Outcome.pure_eq_ok] at counted
        rw [counted]
  · intro width
    exact ⟨some count, ⟨width.symm, Or.inr (by simp [width])⟩, by simp⟩

/-- A wire has a variable exactly if its source offers the port that it
leaves. -/
theorem sourceVariable_eq_ok {wire : Wire} {name : String} :
    sourceVariable wire = .ok name ↔
      wire.source.Offers wire.leaves ∧ wire.variable = name := by
  obtain ⟨index, ⟨id, kind, parameters⟩, target, leaves, arrives⟩ := wire
  cases kind with
  | save => simp [sourceVariable, Node.Offers]
  | fanOut =>
      cases leaves with
      | slot slot =>
          simp only [sourceVariable, Node.Offers, Wire.variable, Outcome.bind_eq_ok,
            slotCount_eq_ok]
          constructor
          · intro success
            obtain ⟨count, width, named⟩ := success
            by_cases inRange : slot < count
            · simp only [inRange, if_true, Outcome.pure_eq_ok] at named
              exact ⟨by simpa [Node.slots, width] using inRange, named⟩
            · simp [inRange] at named
          · intro conditions
            obtain ⟨inRange, named⟩ := conditions
            unfold Node.slots at inRange
            cases width : Node.width? ⟨id, .fanOut, parameters⟩ "count" with
            | none => simp [width] at inRange
            | some count =>
                simp only [width, Option.getD_some] at inRange
                exact ⟨count, rfl, by simp [inRange, named]⟩
      | default | field _ | context | other _ =>
          simp [sourceVariable, Node.Offers, Wire.variable]
  | router =>
      cases leaves with
      | context =>
          cases property : Node.textParam? ⟨id, .router, parameters⟩ "contextProperty" <;>
            simp [sourceVariable, Node.Offers, Wire.variable, property]
      | default | slot _ | field _ | other _ =>
          simp [sourceVariable, Node.Offers, Wire.variable]
  | input | generator | transform | vision | text | collect =>
      simp [sourceVariable, Node.Offers, Wire.variable]

theorem Wire.variable_mem_outputs {wire : Wire} (offered : wire.source.Offers wire.leaves) :
    wire.variable ∈ wire.source.outputs := by
  obtain ⟨index, ⟨id, kind, parameters⟩, target, leaves, arrives⟩ := wire
  cases kind with
  | save => simp [Node.Offers] at offered
  | fanOut =>
      cases leaves with
      | slot slot =>
          have inRange : slot < Node.slots ⟨id, .fanOut, parameters⟩ := offered
          simp only [Wire.variable, Node.outputs]
          exact List.mem_cons_of_mem _ (List.mem_map_of_mem (List.mem_range.mpr inRange))
      | default | field _ | context | other _ => simp [Wire.variable, Node.outputs]
  | router =>
      cases leaves with
      | context =>
          obtain ⟨property, given⟩ := Option.isSome_iff_exists.mp offered
          simp [Wire.variable, Node.outputs, given]
      | default | slot _ | field _ | other _ => simp [Wire.variable, Node.outputs]
  | input | generator | transform | vision | text | collect =>
      simp [Wire.variable, Node.outputs]

end Workflow
