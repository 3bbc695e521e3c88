import Workflow.Proofs.Compilation

/-!
# Shuffled nodes

Nodes are found by their ids, and turns go by edges and ids.  What a graph is
compiled to therefore does not depend on how its nodes are listed; only the
nodes of a cycle are listed as they come.
-/

namespace Workflow

namespace Wiring

variable {nodes shuffled : List Node}

theorem findNode?_perm (permutation : nodes.Perm shuffled)
    (distinct : (nodes.map Node.id).Nodup) (id : String) :
    findNode? nodes id = findNode? shuffled id := by
  have shuffledDistinct : (shuffled.map Node.id).Nodup :=
    (permutation.map Node.id).nodup_iff.mp distinct
  apply Option.ext
  intro node
  rw [findNode?_eq_some distinct, findNode?_eq_some shuffledDistinct, permutation.mem_iff]

theorem wireAll_perm (permutation : nodes.Perm shuffled) (distinct : (nodes.map Node.id).Nodup)
    (index : Nat) (edges : List Edge) :
    wireAll nodes index edges = wireAll shuffled index edges := by
  induction edges generalizing index with
  | nil => rfl
  | cons edge edges induction =>
      simp only [wireAll, wire, resolve, findNode?_perm permutation distinct, induction]

variable {wiring other : Wiring} {waiting mixed : List Pending}

theorem release_perm (same : wiring.wires = other.wires) (permutation : waiting.Perm mixed)
    (done : Node) : (wiring.release done waiting).Perm (other.release done mixed) := by
  unfold release
  rw [same]
  exact (permutation.filter _).map _

/-- The same nodes have their turns, in the same order, and the same nodes are
left. -/
theorem drain_shuffled (same : wiring.wires = other.wires) (permutation : waiting.Perm mixed)
    (distinct : (waitingIds waiting).Nodup) (turns : Nat) :
    (wiring.drain turns waiting).1 = (other.drain turns mixed).1 ∧
      (wiring.drain turns waiting).2.Perm (other.drain turns mixed).2 := by
  induction turns generalizing waiting mixed with
  | zero => exact ⟨rfl, permutation⟩
  | succ turns induction =>
      have next := Pending.next?_perm permutation distinct
      cases chosen : Pending.next? waiting with
      | none =>
          rw [chosen] at next
          simpa [drain, chosen, ← next] using permutation
      | some p =>
          rw [chosen] at next
          have fewer : (waitingIds (wiring.release p.node waiting)).Nodup := by
            rw [waitingIds_release]
            exact distinct.filter _
          obtain ⟨order, left⟩ := induction (release_perm same permutation p.node) fewer
          simp only [drain, chosen, ← next]
          exact ⟨congrArg _ order, left⟩

theorem order_shuffled (same : wiring.wires = other.wires)
    (permutation : wiring.nodes.Perm other.nodes) (proper : wiring.Proper) :
    wiring.order = other.order ∨
      ∃ ids mixed, ids.Perm mixed ∧ wiring.order = .error (.cycle ids) ∧
        other.order = .error (.cycle mixed) := by
  have pendingPerm : wiring.pending.Perm other.pending := by
    unfold pending rank? incoming
    rw [same]
    exact permutation.map _
  obtain ⟨order, left⟩ :=
    drain_shuffled same pendingPerm (pending_waiting proper).distinct wiring.nodes.length
  unfold Wiring.order
  rw [← permutation.length_eq]
  rcases drained : wiring.drain wiring.nodes.length wiring.pending with ⟨ordered, late⟩
  rcases otherDrained : other.drain wiring.nodes.length other.pending with
    ⟨otherOrdered, otherLate⟩
  rw [drained, otherDrained] at order left
  obtain rfl : ordered = otherOrdered := order
  cases late with
  | nil =>
      left
      obtain rfl : otherLate = [] := List.nil_perm.mp left
      rfl
  | cons first rest =>
      right
      cases otherLate with
      | nil => exact absurd left.length_eq (by simp)
      | cons => exact ⟨_, _, left.map fun p => p.node.id, rfl, rfl⟩

theorem build_shuffled (permutation : nodes.Perm shuffled)
    (distinct : (nodes.map Node.id).Nodup) (edges : List Edge) :
    (∃ refusal, build nodes edges = .error refusal ∧ build shuffled edges = .error refusal) ∨
      ∃ wires, build nodes edges = .ok ⟨nodes, wires⟩ ∧
        build shuffled edges = .ok ⟨shuffled, wires⟩ := by
  have shuffledDistinct : (shuffled.map Node.id).Nodup :=
    (permutation.map Node.id).nodup_iff.mp distinct
  rw [build_of_distinct distinct, build_of_distinct shuffledDistinct,
    ← wireAll_perm permutation distinct]
  cases wireAll nodes 0 edges with
  | error refusal => exact Or.inl ⟨refusal, rfl, rfl⟩
  | ok wires => exact Or.inr ⟨wires, rfl, rfl⟩

end Wiring

/-- Compiling does not depend on how the nodes of a graph are listed.  Only the
nodes of a cycle, which the order finds, may be listed otherwise. -/
theorem compile_shuffled {nodes shuffled : List Node} (permutation : nodes.Perm shuffled)
    (edges : List Edge) :
    ((nodes.map Node.id).Nodup →
      compile nodes edges = compile shuffled edges ∨
        ∃ wiring other ids mixed,
          Wiring.build nodes edges = .ok wiring ∧ Wiring.build shuffled edges = .ok other ∧
          wiring.order = .error (.cycle ids) ∧ other.order = .error (.cycle mixed) ∧
          compile nodes edges = .error (.cycle ids) ∧
          compile shuffled edges = .error (.cycle mixed) ∧ ids.Perm mixed) ∧
      (¬(nodes.map Node.id).Nodup →
        ∃ id other, compile nodes edges = .error (.duplicateNode id) ∧
          compile shuffled edges = .error (.duplicateNode other)) := by
  constructor
  · intro distinct
    rcases Wiring.build_shuffled permutation distinct edges with
      ⟨refusal, refused, otherRefused⟩ | ⟨wires, built, otherBuilt⟩
    · left
      simp [compile, Compile.named, refused, otherRefused]
    · have proper := Wiring.build_proper built
      have sameWires : (⟨nodes, wires⟩ : Wiring).wires = (⟨shuffled, wires⟩ : Wiring).wires := rfl
      have sameSteps : Compile.add ⟨nodes, wires⟩ = Compile.add ⟨shuffled, wires⟩ := rfl
      rcases Wiring.order_shuffled sameWires permutation proper with
        sameOrder | ⟨ids, mixed, late, circular, otherCircular⟩
      · left
        simp only [compile, Compile.named, built, otherBuilt, Except.bind, bind, sameOrder,
          sameSteps]
      · right
        refine ⟨_, _, ids, mixed, built, otherBuilt, circular, otherCircular, ?_, ?_, late⟩
        · simp [compile, Compile.named, built, circular]
        · simp [compile, Compile.named, otherBuilt, otherCircular]
  · intro repeated
    have otherRepeated : ¬(shuffled.map Node.id).Nodup := by
      rwa [← (permutation.map Node.id).nodup_iff]
    obtain ⟨id, refused⟩ := Wiring.build_repeated repeated edges
    obtain ⟨other, otherRefused⟩ := Wiring.build_repeated otherRepeated edges
    refine ⟨id, other, ?_, ?_⟩
    · simp [compile, Compile.named, refused]
    · simp [compile, Compile.named, otherRefused]

theorem sample_shuffled :
    compile Graph.sample.nodes Graph.sample.edges =
        compile Graph.sample.nodes.reverse Graph.sample.edges ∧
      ∃ id other,
        compile (Graph.sample.nodes ++ Graph.sample.nodes) Graph.sample.edges =
          .error (.duplicateNode id) ∧
        compile (Graph.sample.nodes ++ Graph.sample.nodes).reverse Graph.sample.edges =
          .error (.duplicateNode other) := by
  constructor
  · have permutation := (List.reverse_perm Graph.sample.nodes).symm
    rcases (compile_shuffled permutation Graph.sample.edges).1 (by decide) with
      same | ⟨_, _, ids, _, _, _, _, _, refused, _⟩
    · exact same
    · obtain ⟨compiled, made⟩ := exists_compiled_sample
      simp [made] at refused
  · have permutation := (List.reverse_perm (Graph.sample.nodes ++ Graph.sample.nodes)).symm
    exact (compile_shuffled permutation Graph.sample.edges).2 (by decide)

end Workflow
