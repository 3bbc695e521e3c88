import Mathlib.Data.List.Perm.Lattice
import Mathlib.Data.Prod.Lex
import Mathlib.Data.String.Basic
import Mathlib.Order.WellFoundedSet
import Workflow.Graph.Order
import Workflow.Proofs.Wiring

/-!
# The order of nodes is a dependency order

The turns of nodes are compared by the place of the first edge that touches
them, then by their id.  Giving turns keeps one invariant, `Waiting`: a node is
held back by exactly those of its wires whose source waits as well.  From it
follow that every node comes after the sources of its wires, and that an order
exists exactly when no node precedes itself.
-/

namespace Workflow

namespace Pending

/-- What the turns of ready nodes are compared by; a node that no edge touches
comes last. -/
def turn (p : Pending) : WithTop Nat ×ₗ String :=
  toLex (match p.rank with | some place => WithTop.some place | none => ⊤, p.node.id)

theorem before_iff_turn_lt {p q : Pending} : p.before q ↔ p.turn < q.turn := by
  unfold before turn rankBefore
  rw [Prod.Lex.toLex_lt_toLex]
  cases p.rank <;> cases q.rank <;> simp

theorem turn_le_of_not_before {p q : Pending} (later : ¬p.before q) : q.turn ≤ p.turn := by
  rw [before_iff_turn_lt] at later
  exact not_lt.mp later

theorem id_eq_of_turn_eq {p q : Pending} (same : p.turn = q.turn) : p.node.id = q.node.id := by
  have ids := congrArg (fun turn => (ofLex turn).2) same
  simpa [turn] using ids

theorem next?_eq_none {waiting : List Pending} :
    next? waiting = none ↔ ∀ p ∈ waiting, p.unmet ≠ 0 := by
  induction waiting with
  | nil => simp [next?]
  | cons p rest induction =>
      by_cases ready : p.unmet = 0
      · simp only [next?, ready, ne_eq, not_true_eq_false, if_false, List.forall_mem_cons,
          false_and, iff_false]
        cases next? rest with
        | none => simp
        | some q => by_cases earlier : q.before p <;> simp [earlier]
      · simp [next?, ready, induction]

/-- The node whose turn comes is ready, and no other ready node is before it. -/
theorem next?_eq_some {waiting : List Pending} {p : Pending} (chosen : next? waiting = some p) :
    p ∈ waiting ∧ p.unmet = 0 ∧ ∀ q ∈ waiting, q.unmet = 0 → p.turn ≤ q.turn := by
  induction waiting generalizing p with
  | nil => simp [next?] at chosen
  | cons head rest induction =>
      by_cases ready : head.unmet = 0
      · simp only [next?, ready, ne_eq, not_true_eq_false, if_false] at chosen
        cases later : next? rest with
        | none =>
            simp only [later, Option.some.injEq] at chosen
            subst chosen
            refine ⟨List.mem_cons_self, ready, ?_⟩
            intro q member qReady
            rcases List.mem_cons.mp member with rfl | inRest
            · exact le_refl _
            · exact absurd qReady (next?_eq_none.mp later q inRest)
        | some other =>
            obtain ⟨otherMember, otherReady, otherFirst⟩ := induction later
            by_cases earlier : other.before head
            · simp only [later, earlier, if_true, Option.some.injEq] at chosen
              subst chosen
              refine ⟨List.mem_cons_of_mem _ otherMember, otherReady, ?_⟩
              intro q member qReady
              rcases List.mem_cons.mp member with rfl | inRest
              · exact le_of_lt (before_iff_turn_lt.mp earlier)
              · exact otherFirst q inRest qReady
            · simp only [later, earlier, if_false, Option.some.injEq, Bool.false_eq_true] at chosen
              subst chosen
              refine ⟨List.mem_cons_self, ready, ?_⟩
              intro q member qReady
              rcases List.mem_cons.mp member with rfl | inRest
              · exact le_refl _
              · exact le_trans (turn_le_of_not_before earlier) (otherFirst q inRest qReady)
      · simp only [next?, ready, ne_eq, not_false_eq_true, if_true] at chosen
        obtain ⟨member, pReady, first⟩ := induction chosen
        refine ⟨List.mem_cons_of_mem _ member, pReady, ?_⟩
        intro q qMember qReady
        rcases List.mem_cons.mp qMember with rfl | inRest
        · exact absurd qReady ready
        · exact first q inRest qReady

theorem next?_perm {left right : List Pending} (permutation : left.Perm right)
    (distinct : (left.map fun p => p.node.id).Nodup) : next? left = next? right := by
  cases leftChosen : next? left with
  | none =>
      symm
      rw [next?_eq_none]
      intro p member
      exact next?_eq_none.mp leftChosen p (permutation.mem_iff.mpr member)
  | some p =>
      obtain ⟨pMember, pReady, pFirst⟩ := next?_eq_some leftChosen
      cases rightChosen : next? right with
      | none =>
          exact absurd pReady (next?_eq_none.mp rightChosen p (permutation.mem_iff.mp pMember))
      | some q =>
          obtain ⟨qMember, qReady, qFirst⟩ := next?_eq_some rightChosen
          have qInLeft : q ∈ left := permutation.mem_iff.mpr qMember
          have pInRight : p ∈ right := permutation.mem_iff.mp pMember
          have sameTurn : p.turn = q.turn :=
            le_antisymm (pFirst q qInLeft qReady) (qFirst p pInRight pReady)
          rw [List.inj_on_of_nodup_map distinct pMember qInLeft (id_eq_of_turn_eq sameTurn)]

end Pending

/-- The node with an id lies on a cycle, or behind one. -/
def Trapped (precedes : String → String → Prop) (id : String) : Prop :=
  ∃ start, Relation.TransGen precedes start start ∧ Relation.ReflTransGen precedes start id

namespace Trapped

variable {precedes : String → String → Prop} {id : String}

theorem exists_source (trapped : Trapped precedes id) :
    ∃ source, precedes source id ∧ Trapped precedes source := by
  obtain ⟨start, cycle, path⟩ := trapped
  cases path with
  | refl =>
      obtain ⟨last, around, closing⟩ := Relation.TransGen.tail'_iff.mp cycle
      exact ⟨last, closing, id, cycle, around⟩
  | tail before closing => exact ⟨_, closing, start, cycle, before⟩

/-- In a finite company in which everybody waits for another member, all wait for a
cycle. -/
theorem of_held {company : List String}
    (held : ∀ id ∈ company, ∃ source ∈ company, precedes source id) (member : id ∈ company) :
    Trapped precedes id := by
  by_contra free
  let before := {source | source ∈ company ∧ Relation.ReflTransGen precedes source id}
  have strict : IsStrictOrder before (fun a b => Relation.TransGen precedes a b) :=
    { irrefl := fun source cycle => free ⟨source, cycle, source.property.2⟩
      trans := fun _ _ _ first second => first.trans second }
  have finite : before.Finite := (List.finite_toSet company).subset fun _ inside => inside.1
  have : Finite before := finite
  obtain ⟨⟨first, isMember, path⟩, -, minimal⟩ :=
    (Finite.wellFounded_of_trans_of_irrefl
      (fun a b : before => Relation.TransGen precedes a b)).has_min Set.univ
      ⟨⟨id, member, .refl⟩, trivial⟩
  obtain ⟨source, sourceMember, closing⟩ := held first isMember
  exact minimal ⟨source, sourceMember, path.head closing⟩ trivial (.single closing)

end Trapped

namespace Wiring

/-- The source of a wire comes before its target. -/
def Precedes (wiring : Wiring) (source target : String) : Prop :=
  ∃ w ∈ wiring.wires, w.source.id = source ∧ w.target.id = target

/-- No node comes, directly or through others, before itself. -/
def Acyclic (wiring : Wiring) : Prop :=
  ∀ id, ¬Relation.TransGen wiring.Precedes id id

/-- The ids of waiting nodes. -/
def waitingIds (waiting : List Pending) : List String :=
  waiting.map fun p => p.node.id

/-- A node waits for exactly those of its wires whose source waits as well. -/
structure Waiting (wiring : Wiring) (waiting : List Pending) : Prop where
  distinct : (waitingIds waiting).Nodup
  held : ∀ p ∈ waiting, p.unmet = wiring.wires.countP fun w =>
    w.target.id = p.node.id && (waitingIds waiting).contains w.source.id

variable {wiring : Wiring} {waiting : List Pending}

theorem nodes_pending (wiring : Wiring) : wiring.pending.map Pending.node = wiring.nodes := by
  simp [pending, Function.comp_def]

theorem waitingIds_pending (wiring : Wiring) :
    waitingIds wiring.pending = wiring.nodes.map Node.id := by
  simp [waitingIds, pending, Function.comp_def]

theorem pending_waiting (proper : wiring.Proper) : wiring.Waiting wiring.pending := by
  constructor
  · rw [waitingIds_pending]
    exact proper.distinct
  · intro p member
    simp only [pending, List.mem_map] at member
    obtain ⟨node, -, rfl⟩ := member
    simp only [incoming, waitingIds_pending, ← List.countP_eq_length_filter]
    apply List.countP_congr
    intro w wireMember
    have known : w.source.id ∈ wiring.nodes.map Node.id :=
      List.mem_map_of_mem (proper.source_mem w wireMember)
    simp [known]

theorem waitingIds_release (done : Node) :
    waitingIds (wiring.release done waiting) =
      (waitingIds waiting).filter fun id => id ≠ done.id := by
  simp [waitingIds, release, List.filter_map, Function.comp_def]

theorem nodes_release (done : Node) :
    (wiring.release done waiting).map Pending.node =
      (waiting.map Pending.node).filter fun node => node.id ≠ done.id := by
  simp [release, List.filter_map, Function.comp_def]

/-- The wires by which waiting nodes hold a node back leave the node whose turn comes,
or one that still waits then. -/
theorem countP_release (wiring : Wiring) {done : Pending} (member : done ∈ waiting)
    (id : String) :
    (wiring.wires.countP fun w =>
        w.target.id = id && (waitingIds waiting).contains w.source.id) =
      (wiring.wires.countP fun w => w.target.id = id && w.source.id = done.node.id) +
        wiring.wires.countP fun w => w.target.id = id &&
          (waitingIds (wiring.release done.node waiting)).contains w.source.id := by
  have doneWaits : done.node.id ∈ waitingIds waiting := List.mem_map_of_mem member
  rw [List.countP_eq_countP_filter_add wiring.wires
    (fun w => w.target.id = id && (waitingIds waiting).contains w.source.id)
    (fun w => w.source.id = done.node.id)]
  simp only [List.countP_filter]
  congr 1
  · apply List.countP_congr
    intro w _
    by_cases leaves : w.source.id = done.node.id <;> simp [leaves, doneWaits]
  · apply List.countP_congr
    intro w _
    simp [waitingIds_release, and_assoc]

theorem release_waiting (holds : wiring.Waiting waiting) {done : Pending}
    (member : done ∈ waiting) : wiring.Waiting (wiring.release done.node waiting) := by
  constructor
  · rw [waitingIds_release]
    exact holds.distinct.filter _
  · intro q qMember
    simp only [release, List.mem_map, List.mem_filter] at qMember
    obtain ⟨p, ⟨pMember, -⟩, rfl⟩ := qMember
    have divided := wiring.countP_release member p.node.id
    rw [← holds.held p pMember] at divided
    simp only [List.countP_filter]
    omega

theorem nodes_perm_release (holds : wiring.Waiting waiting) {done : Pending}
    (member : done ∈ waiting) :
    (done.node :: (wiring.release done.node waiting).map Pending.node).Perm
      (waiting.map Pending.node) := by
  have distinct : ((waiting.map Pending.node).map Node.id).Nodup := by
    simpa [waitingIds, Function.comp_def] using holds.distinct
  have nodeMember : done.node ∈ waiting.map Pending.node := List.mem_map_of_mem member
  have others : ((waiting.map Pending.node).filter fun node => node.id ≠ done.node.id) =
      (waiting.map Pending.node).erase done.node := by
    rw [(List.Nodup.of_map _ distinct).erase_eq_filter]
    apply List.filter_congr
    intro node inWaiting
    by_cases same : node.id = done.node.id
    · have equal := List.inj_on_of_nodup_map distinct inWaiting nodeMember same
      simp [equal]
    · have different : node ≠ done.node := fun equal => same (congrArg Node.id equal)
      simp [same, different]
  rw [nodes_release, others]
  exact (List.perm_cons_erase nodeMember).symm

theorem drain_waiting (holds : wiring.Waiting waiting) (turns : Nat) :
    wiring.Waiting (wiring.drain turns waiting).2 := by
  induction turns generalizing waiting with
  | zero => exact holds
  | succ turns induction =>
      cases chosen : Pending.next? waiting with
      | none => simpa [drain, chosen] using holds
      | some p =>
          simp only [drain, chosen]
          exact induction (release_waiting holds (Pending.next?_eq_some chosen).1)

/-- No node is lost: each one had its turn or still waits. -/
theorem drain_perm (holds : wiring.Waiting waiting) (turns : Nat) :
    ((wiring.drain turns waiting).1 ++
      (wiring.drain turns waiting).2.map Pending.node).Perm (waiting.map Pending.node) := by
  induction turns generalizing waiting with
  | zero => simp [drain]
  | succ turns induction =>
      cases chosen : Pending.next? waiting with
      | none => simp [drain, chosen]
      | some p =>
          have member := (Pending.next?_eq_some chosen).1
          simp only [drain, chosen, List.cons_append]
          exact ((induction (release_waiting holds member)).cons p.node).trans
            (nodes_perm_release holds member)

/-- With as many turns as nodes that wait, nobody is left who is ready. -/
theorem drain_stuck (holds : wiring.Waiting waiting) {turns : Nat}
    (enough : waiting.length ≤ turns) :
    Pending.next? (wiring.drain turns waiting).2 = none := by
  induction turns generalizing waiting with
  | zero =>
      have nobody : waiting = [] := List.eq_nil_of_length_eq_zero (by omega)
      simp [drain, nobody, Pending.next?]
  | succ turns induction =>
      cases chosen : Pending.next? waiting with
      | none => simp [drain, chosen]
      | some p =>
          have member := (Pending.next?_eq_some chosen).1
          have fewer := (nodes_perm_release holds member).length_eq
          simp only [List.length_cons, List.length_map] at fewer
          simp only [drain, chosen]
          exact induction (release_waiting holds member) (by omega)

/-- When a node has its turn, no source of its wires waits any longer. -/
theorem source_of_drain (holds : wiring.Waiting waiting) {turns : Nat}
    {before after : List Node} {node : Node}
    (split : (wiring.drain turns waiting).1 = before ++ node :: after)
    {w : Wire} (wireMember : w ∈ wiring.wires) (arrives : w.target.id = node.id)
    (waits : w.source.id ∈ waitingIds waiting) : w.source.id ∈ before.map Node.id := by
  induction turns generalizing waiting before with
  | zero => simp [drain] at split
  | succ turns induction =>
      cases chosen : Pending.next? waiting with
      | none => simp [drain, chosen] at split
      | some p =>
          obtain ⟨member, ready, -⟩ := Pending.next?_eq_some chosen
          simp only [drain, chosen] at split
          cases before with
          | nil =>
              simp only [List.nil_append, List.cons.injEq] at split
              obtain ⟨rfl, -⟩ := split
              have none := holds.held p member
              rw [ready] at none
              have absent := List.countP_eq_zero.mp none.symm w wireMember
              simp [arrives, waits] at absent
          | cons first before =>
              simp only [List.cons_append, List.cons.injEq] at split
              obtain ⟨rfl, split⟩ := split
              by_cases now : w.source.id = p.node.id
              · simp [now]
              · have waitsOn : w.source.id ∈ waitingIds (wiring.release p.node waiting) := by
                  simp [waitingIds_release, waits, now]
                exact List.mem_cons_of_mem _
                  (induction (release_waiting holds member) split waitsOn)

/-- All nodes of a wiring, each one after the sources of its wires. -/
structure Ordered (wiring : Wiring) (order : List Node) : Prop where
  perm : order.Perm wiring.nodes
  sources : ∀ before node after, order = before ++ node :: after →
    ∀ w ∈ wiring.wires, w.target.id = node.id → w.source ∈ before

theorem order_eq_ok {order : List Node} :
    wiring.order = .ok order ↔
      wiring.drain wiring.nodes.length wiring.pending = (order, []) := by
  unfold Wiring.order
  rcases drained : wiring.drain wiring.nodes.length wiring.pending with ⟨nodes, left⟩
  cases left <;> simp

theorem order_ordered (proper : wiring.Proper) {order : List Node}
    (ordered : wiring.order = .ok order) : wiring.Ordered order := by
  have holds := pending_waiting proper
  have drained := order_eq_ok.mp ordered
  have perm : order.Perm wiring.nodes := by
    have all := drain_perm holds wiring.nodes.length
    simpa [drained, nodes_pending] using all
  refine ⟨perm, ?_⟩
  intro before node after split w member arrives
  have waits : w.source.id ∈ waitingIds wiring.pending := by
    rw [waitingIds_pending]
    exact List.mem_map_of_mem (proper.source_mem w member)
  have earlier : w.source.id ∈ before.map Node.id :=
    source_of_drain holds (by rw [drained]; exact split) member arrives waits
  obtain ⟨source, sourceBefore, same⟩ := List.mem_map.mp earlier
  have sourceMember : source ∈ wiring.nodes := by
    apply perm.mem_iff.mp
    simp [split, sourceBefore]
  have equal := List.inj_on_of_nodup_map proper.distinct sourceMember
    (proper.source_mem w member) same
  exact equal ▸ sourceBefore

theorem order_perm {nodes : List Node} {edges : List Edge} {order : List Node}
    (built : build nodes edges = .ok wiring) (ordered : wiring.order = .ok order) :
    order.Perm nodes := by
  rw [← build_nodes built]
  exact (order_ordered (build_proper built) ordered).perm

theorem Ordered.idxOf_lt {order : List Node} (ordered : wiring.Ordered order)
    (proper : wiring.Proper) {source target : String}
    (precedes : wiring.Precedes source target) :
    (order.map Node.id).idxOf source < (order.map Node.id).idxOf target := by
  obtain ⟨w, member, rfl, rfl⟩ := precedes
  have inOrder : w.target ∈ order := ordered.perm.mem_iff.mpr (proper.target_mem w member)
  obtain ⟨before, after, rfl⟩ := List.append_of_mem inOrder
  have sourceBefore : w.source.id ∈ before.map Node.id :=
    List.mem_map_of_mem (ordered.sources before w.target after rfl w member rfl)
  have distinct : ((before ++ w.target :: after).map Node.id).Nodup :=
    (ordered.perm.map Node.id).nodup_iff.mpr proper.distinct
  have targetLater : w.target.id ∉ before.map Node.id := by
    intro again
    simp only [List.map_append, List.map_cons] at distinct
    exact (List.nodup_append.mp distinct).2.2 _ again _ List.mem_cons_self rfl
  rw [List.map_append, List.idxOf_append_of_mem sourceBefore,
    List.idxOf_append_of_notMem targetLater]
  exact Nat.lt_add_right _ (List.idxOf_lt_length_of_mem sourceBefore)

theorem Ordered.acyclic {order : List Node} (ordered : wiring.Ordered order)
    (proper : wiring.Proper) : wiring.Acyclic := by
  have ascends : ∀ {source target}, Relation.TransGen wiring.Precedes source target →
      (order.map Node.id).idxOf source < (order.map Node.id).idxOf target := by
    intro source target path
    induction path with
    | single step => exact ordered.idxOf_lt proper step
    | tail _ step induction => exact induction.trans (ordered.idxOf_lt proper step)
  intro id cycle
  exact Nat.lt_irrefl _ (ascends cycle)

/-- Nodes none of which is ready wait for a cycle. -/
theorem Waiting.trapped (holds : wiring.Waiting waiting) (stuck : Pending.next? waiting = none)
    {id : String} (member : id ∈ waitingIds waiting) : Trapped wiring.Precedes id := by
  refine Trapped.of_held ?_ member
  intro target targetMember
  obtain ⟨p, pMember, rfl⟩ := List.mem_map.mp targetMember
  have positive : 0 < p.unmet := Nat.pos_of_ne_zero (Pending.next?_eq_none.mp stuck p pMember)
  rw [holds.held p pMember, List.countP_pos_iff] at positive
  obtain ⟨w, wireMember, holding⟩ := positive
  simp only [Bool.and_eq_true, decide_eq_true_eq, List.contains_eq_mem] at holding
  exact ⟨w.source.id, holding.2, w, wireMember, rfl, holding.1⟩

theorem Waiting.eq_nil_of_acyclic (holds : wiring.Waiting waiting) (acyclic : wiring.Acyclic)
    (stuck : Pending.next? waiting = none) : waiting = [] := by
  by_contra notEmpty
  obtain ⟨p, pMember⟩ := List.exists_mem_of_ne_nil waiting notEmpty
  obtain ⟨start, cycle, -⟩ := holds.trapped stuck (List.mem_map_of_mem pMember)
  exact acyclic start cycle

/-- The nodes can be ordered exactly if no node precedes itself. -/
theorem exists_order (proper : wiring.Proper) :
    (∃ order, wiring.order = .ok order) ↔ wiring.Acyclic := by
  constructor
  · intro success
    obtain ⟨order, ordered⟩ := success
    exact (order_ordered proper ordered).acyclic proper
  · intro acyclic
    have holds := pending_waiting proper
    have nobody : (wiring.drain wiring.nodes.length wiring.pending).2 = [] := by
      refine (drain_waiting holds _).eq_nil_of_acyclic acyclic (drain_stuck holds ?_)
      simp [pending]
    refine ⟨(wiring.drain wiring.nodes.length wiring.pending).1, order_eq_ok.mpr ?_⟩
    exact Prod.ext rfl nobody

end Wiring

end Workflow
