import Workflow.Proofs.Order

/-!
# Nodes that never have their turn

A node that waits for a cycle never has its turn, and every node that never has
its turn waits for a cycle.  Nodes that are left over keep the order in which the
graph lists them.
-/

namespace Workflow

namespace Wiring

variable {wiring : Wiring}

theorem not_trapped_of_drain (proper : wiring.Proper) {turns : Nat} {before after : List Node}
    {node : Node} (split : (wiring.drain turns wiring.pending).1 = before ++ node :: after) :
    ¬Trapped wiring.Precedes node.id := by
  induction length : before.length using Nat.strong_induction_on generalizing before node after with
  | _ count induction =>
      intro trapped
      obtain ⟨source, ⟨w, member, rfl, arrives⟩, sourceTrapped⟩ := trapped.exists_source
      have waits : w.source.id ∈ waitingIds wiring.pending := by
        rw [waitingIds_pending]
        exact List.mem_map_of_mem (proper.source_mem w member)
      have earlier := source_of_drain (pending_waiting proper) split member arrives waits
      obtain ⟨first, firstMember, same⟩ := List.mem_map.mp earlier
      obtain ⟨front, back, rfl⟩ := List.append_of_mem firstMember
      rw [← same] at sourceTrapped
      rw [List.append_assoc, List.cons_append] at split
      refine induction front.length ?_ split rfl sourceTrapped
      simp only [List.length_append, List.length_cons] at length
      omega

theorem nodes_drain (turns : Nat) (waiting : List Pending) :
    (wiring.drain turns waiting).2.map Pending.node =
      (waiting.map Pending.node).filter fun node =>
        node.id ∉ (wiring.drain turns waiting).1.map Node.id := by
  induction turns generalizing waiting with
  | zero => simp [drain]
  | succ turns induction =>
      cases chosen : Pending.next? waiting with
      | none => simp [drain, chosen]
      | some p =>
          simp only [drain, chosen, induction, nodes_release, List.filter_filter]
          apply List.filter_congr
          intro node _
          by_cases now : node.id = p.node.id <;> simp [now]

/-- Each node of the graph had its turn or is left, but not both. -/
theorem mem_waitingIds_iff_notMem (turns : Nat) {node : Node} (member : node ∈ wiring.nodes) :
    node.id ∈ waitingIds (wiring.drain turns wiring.pending).2 ↔
      node.id ∉ (wiring.drain turns wiring.pending).1.map Node.id := by
  have ids : waitingIds (wiring.drain turns wiring.pending).2 =
      ((wiring.drain turns wiring.pending).2.map Pending.node).map Node.id := by
    rw [List.map_map]
    rfl
  rw [ids, nodes_drain, nodes_pending]
  constructor
  · intro left
    obtain ⟨other, otherLeft, same⟩ := List.mem_map.mp left
    rw [← same]
    exact of_decide_eq_true (List.mem_filter.mp otherLeft).2
  · intro noTurn
    exact List.mem_map_of_mem (List.mem_filter.mpr ⟨member, decide_eq_true noTurn⟩)

/-- A node is left over exactly if it waits for a cycle. -/
theorem mem_waitingIds_drain (proper : wiring.Proper) {id : String} :
    id ∈ waitingIds (wiring.drain wiring.nodes.length wiring.pending).2 ↔
      Trapped wiring.Precedes id := by
  have holds := pending_waiting proper
  constructor
  · intro left
    refine (drain_waiting holds _).trapped (drain_stuck holds ?_) left
    simp [pending]
  · intro trapped
    obtain ⟨source, ⟨w, member, -, rfl⟩, -⟩ := trapped.exists_source
    have everybody := drain_perm holds wiring.nodes.length
    rw [nodes_pending] at everybody
    rcases List.mem_append.mp (everybody.mem_iff.mpr (proper.target_mem w member)) with
      ordered | left
    · obtain ⟨before, after, split⟩ := List.append_of_mem ordered
      exact absurd trapped (not_trapped_of_drain proper split)
    · obtain ⟨p, pMember, same⟩ := List.mem_map.mp left
      exact List.mem_map.mpr ⟨p, pMember, congrArg Node.id same⟩

/-- Where there is no order, the nodes that wait for a cycle are named, as the graph
lists them. -/
theorem order_eq_error (proper : wiring.Proper) {id : String}
    (trapped : Trapped wiring.Precedes id) :
    ∃ left, wiring.order = .error (.cycle left) ∧ left.Sublist (wiring.nodes.map Node.id) ∧
      ∀ id, id ∈ left ↔ Trapped wiring.Precedes id := by
  have member := (mem_waitingIds_drain proper).mpr trapped
  refine ⟨waitingIds (wiring.drain wiring.nodes.length wiring.pending).2, ?_, ?_,
    fun _ => mem_waitingIds_drain proper⟩
  · unfold order
    generalize wiring.drain wiring.nodes.length wiring.pending = drained at member
    obtain ⟨nodes, _ | ⟨p, left⟩⟩ := drained
    · cases member
    · rfl
  · have sublist : ((wiring.drain wiring.nodes.length wiring.pending).2.map Pending.node).Sublist
        wiring.nodes := by
      rw [nodes_drain, nodes_pending]
      exact List.filter_sublist
    simpa [waitingIds, Function.comp_def] using sublist.map Node.id

end Wiring

end Workflow
