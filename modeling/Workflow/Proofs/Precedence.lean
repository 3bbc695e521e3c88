import Workflow.Graph.Sample
import Workflow.Proofs.WellFormed

/-!
# Who has the first turn

Each turn goes to the ready node that the earliest edge touches, and among equals to
the one with the least id.  Such an order is determined by edges and ids alone.  It is
the least of all orders that respect the edges, and the nodes that no edge touches end
it.
-/

namespace Workflow

/-- Whether an edge touches the node with an id. -/
def Edge.touches (edge : Edge) (id : String) : Bool :=
  edge.source = id || edge.target = id

namespace Precedence

/-- Some edge touches the node with an id. -/
def Touched (edges : List Edge) (id : String) : Prop :=
  ∃ edge ∈ edges, edge.touches id

/-- What turns go by: the place of the first edge that touches the node, which is above
all places where there is none, and then the id. -/
def turn (edges : List Edge) (id : String) : WithTop Nat ×ₗ String :=
  toLex (match edges.findIdx? fun edge => edge.touches id with
    | some place => WithTop.some place
    | none => ⊤, id)

/-- The node with an id had no turn yet, and all nodes that it depends on had theirs. -/
structure Ready (edges : List Edge) (ids before : List String) (id : String) : Prop where
  listed : id ∈ ids
  waits : id ∉ before
  free : ∀ edge ∈ edges, edge.target = id → edge.source ∈ before

/-- All ids, each one after those that it depends on. -/
structure Topological (edges : List Edge) (ids order : List String) : Prop where
  perm : order.Perm ids
  onwards : ∀ edge ∈ edges, order.idxOf edge.source < order.idxOf edge.target

/-- All ids, where each turn goes to a ready node that no other ready node is before. -/
structure Greedy (edges : List Edge) (ids order : List String) : Prop where
  perm : order.Perm ids
  ready : ∀ i id, order[i]? = some id → Ready edges ids (order.take i) id
  least : ∀ i id other, order[i]? = some id → Ready edges ids (order.take i) other →
    turn edges id ≤ turn edges other

variable {edges : List Edge} {ids others order other before after : List String} {id : String}

theorem turn_injective (edges : List Edge) : Function.Injective (turn edges) := by
  intro id other same
  exact congrArg (fun turn => (ofLex turn).2) same

theorem findIdx?_eq_none_iff : (edges.findIdx? fun edge => edge.touches id) = none ↔
    ¬Touched edges id := by
  simp [Touched]

theorem turn_of_untouched (untouched : ¬Touched edges id) : turn edges id = toLex (⊤, id) := by
  rw [turn, findIdx?_eq_none_iff.mpr untouched]

theorem turn_lt_of_untouched {later : String} (touched : Touched edges id)
    (untouched : ¬Touched edges later) : turn edges id < turn edges later := by
  rw [turn_of_untouched untouched, turn]
  cases found : edges.findIdx? fun edge => edge.touches id with
  | none => exact absurd touched (findIdx?_eq_none_iff.mp found)
  | some place => exact Prod.Lex.toLex_lt_toLex.mpr (Or.inl (WithTop.coe_lt_top place))

theorem Ready.mono_ids (ready : Ready edges ids before id) (permutation : ids.Perm others) :
    Ready edges others before id where
  listed := permutation.mem_iff.mp ready.listed
  waits := ready.waits
  free := ready.free

theorem Topological.ready (topological : Topological edges ids order) (distinct : ids.Nodup)
    (split : order = before ++ id :: after) : Ready edges ids before id := by
  subst split
  have apart := topological.perm.nodup_iff.mpr distinct
  have waits : id ∉ before := by
    intro again
    exact (List.nodup_append.mp apart).2.2 id again id List.mem_cons_self rfl
  constructor
  · exact topological.perm.mem_iff.mp (by simp)
  · exact waits
  · intro edge member arrives
    have earlier := topological.onwards edge member
    rw [arrives, List.idxOf_append_of_notMem waits, List.idxOf_cons_self] at earlier
    by_contra later
    rw [List.idxOf_append_of_notMem later] at earlier
    omega

namespace Greedy

theorem of_perm (greedy : Greedy edges ids order) (permutation : ids.Perm others) :
    Greedy edges others order where
  perm := greedy.perm.trans permutation
  ready i id found := (greedy.ready i id found).mono_ids permutation
  least i id other found ready := greedy.least i id other found (ready.mono_ids permutation.symm)

/-- Where an order is split, the first node behind is ready, and the least of all that
are. -/
theorem at_split (greedy : Greedy edges ids order) (split : order = before ++ id :: after) :
    Ready edges ids before id ∧
      ∀ other, Ready edges ids before other → turn edges id ≤ turn edges other := by
  have found : order[before.length]? = some id := by simp [split]
  have front : order.take before.length = before := by simp [split]
  have ready := greedy.ready before.length id found
  have least := greedy.least before.length id
  rw [front] at ready least
  exact ⟨ready, fun other => least other found⟩

theorem of_splits (perm : order.Perm ids)
    (turns : ∀ before id after, order = before ++ id :: after → Ready edges ids before id ∧
      ∀ other, Ready edges ids before other → turn edges id ≤ turn edges other) :
    Greedy edges ids order := by
  have split : ∀ i id, order[i]? = some id → order = order.take i ++ id :: order.drop (i + 1) := by
    intro i id found
    obtain ⟨inRange, here⟩ := List.getElem?_eq_some_iff.mp found
    rw [← here, List.getElem_cons_drop, List.take_append_drop]
  constructor
  · exact perm
  · intro i id found
    exact (turns _ id _ (split i id found)).1
  · intro i id other found
    exact (turns _ id _ (split i id found)).2 other

theorem topological (greedy : Greedy edges ids order)
    (listed : ∀ edge ∈ edges, edge.target ∈ ids) : Topological edges ids order where
  perm := greedy.perm
  onwards edge member := by
    have inOrder : edge.target ∈ order := greedy.perm.mem_iff.mpr (listed edge member)
    have ready := greedy.ready _ _ (List.getElem?_idxOf inOrder)
    have earlier := ready.free edge member rfl
    exact (List.mem_take_iff_idxOf_lt (List.mem_of_mem_take earlier)).mp earlier

/-- From a common beginning on, a greedy order is the same as any other that respects
the edges, or comes before it. -/
theorem eq_or_lex_after (greedy : Greedy edges ids order)
    (topological : Topological edges ids other) (distinct : ids.Nodup)
    {rest otherRest : List String} (split : order = before ++ rest)
    (otherSplit : other = before ++ otherRest) :
    otherRest = rest ∨
      List.Lex (· < ·) (rest.map (turn edges)) (otherRest.map (turn edges)) := by
  have lengths : rest.length = otherRest.length := by
    have same := (greedy.perm.trans topological.perm.symm).length_eq
    simpa [split, otherSplit] using same
  induction rest generalizing before otherRest with
  | nil => exact Or.inl (List.length_eq_zero_iff.mp lengths.symm)
  | cons id rest induction =>
      cases otherRest with
      | nil => simp at lengths
      | cons first otherRest =>
          have ready := topological.ready distinct otherSplit
          rcases ((greedy.at_split split).2 first ready).lt_or_eq with before | same
          · exact Or.inr (.rel before)
          · obtain rfl := turn_injective edges same
            rcases @induction (before ++ [id]) otherRest (by simp [split]) (by simp [otherSplit])
              (by simpa using lengths) with equal | further
            · exact Or.inl (congrArg _ equal)
            · exact Or.inr (.cons further)

theorem eq_or_lex (greedy : Greedy edges ids order) (topological : Topological edges ids other)
    (distinct : ids.Nodup) :
    other = order ∨ List.Lex (· < ·) (order.map (turn edges)) (other.map (turn edges)) :=
  greedy.eq_or_lex_after topological distinct (List.nil_append order).symm
    (List.nil_append other).symm

/-- There is one greedy order. -/
theorem unique (greedy : Greedy edges ids order) (another : Greedy edges ids other)
    (distinct : ids.Nodup) (listed : ∀ edge ∈ edges, edge.target ∈ ids) : other = order := by
  rcases greedy.eq_or_lex (another.topological listed) distinct with same | below
  · exact same
  · rcases another.eq_or_lex (greedy.topological listed) distinct with same | above
    · exact same.symm
    · exact absurd above (asymm below)

theorem untouched_next (greedy : Greedy edges ids order) {middle : List String} {next : String}
    (split : order = before ++ id :: (middle ++ next :: after)) (untouched : ¬Touched edges id)
    (between : ∀ other ∈ middle, ¬Touched edges other) : ¬Touched edges next := by
  intro touched
  have later : order = (before ++ id :: middle) ++ next :: after := by simp [split]
  obtain ⟨nextReady, -⟩ := greedy.at_split later
  have ready : Ready edges ids before next := by
    constructor
    · exact nextReady.listed
    · exact fun again => nextReady.waits (List.mem_append_left _ again)
    · intro edge member arrives
      have sourceTouched : Touched edges edge.source := ⟨edge, member, by simp [Edge.touches]⟩
      have source := nextReady.free edge member arrives
      rw [List.mem_append, List.mem_cons] at source
      rcases source with earlier | here | later
      · exact earlier
      · exact absurd (here ▸ sourceTouched) untouched
      · exact absurd sourceTouched (between _ later)
  have first := (greedy.at_split split).2 next ready
  exact first.not_gt (turn_lt_of_untouched touched untouched)

theorem untouched_after (greedy : Greedy edges ids order) {middle : List String}
    (split : order = before ++ id :: (middle ++ after)) (untouched : ¬Touched edges id)
    (between : ∀ other ∈ middle, ¬Touched edges other) :
    ∀ later ∈ after, ¬Touched edges later := by
  induction after generalizing middle with
  | nil => simp
  | cons next after induction =>
      have nextUntouched := greedy.untouched_next split untouched between
      have stillBetween : ∀ other ∈ middle ++ [next], ¬Touched edges other := by
        intro other member
        rcases List.mem_append.mp member with before | here
        · exact between other before
        · exact List.mem_singleton.mp here ▸ nextUntouched
      have further := induction (by simp [split]) stillBetween
      intro later member
      rcases List.mem_cons.mp member with rfl | inRest
      · exact nextUntouched
      · exact further later inRest

/-- A node that no edge touches is followed by such nodes only, and in the order of
their ids. -/
theorem untouched_pairwise (greedy : Greedy edges ids order) (distinct : ids.Nodup) :
    order.Pairwise fun first later =>
      ¬Touched edges first → ¬Touched edges later ∧ first < later := by
  rw [List.pairwise_iff_forall_sublist]
  intro first later sublist untouched
  obtain ⟨front, back, rfl, here, behind⟩ := List.cons_sublist_iff.mp sublist
  obtain ⟨before, middle, rfl⟩ := List.append_of_mem here
  have split : before ++ first :: middle ++ back = before ++ first :: ([] ++ (middle ++ back)) := by
    simp
  have member : later ∈ middle ++ back :=
    List.mem_append_right _ (List.singleton_sublist.mp behind)
  have laterUntouched := greedy.untouched_after split untouched (by simp) later member
  obtain ⟨-, least⟩ := greedy.at_split split
  have apart := greedy.perm.nodup_iff.mpr distinct
  rw [split, List.nodup_append, List.nodup_cons, List.nil_append] at apart
  obtain ⟨-, ⟨notAgain, -⟩, notBefore⟩ := apart
  have ready : Ready edges ids before later := by
    constructor
    · exact greedy.perm.mem_iff.mp (by rw [split]; simp [member])
    · exact fun earlier => notBefore later earlier later (List.mem_cons_of_mem _ member) rfl
    · intro edge edgeMember arrives
      exact absurd ⟨edge, edgeMember, by simp [Edge.touches, arrives]⟩ laterUntouched
  have turns := least later ready
  rw [turn_of_untouched untouched, turn_of_untouched laterUntouched] at turns
  have ids : first ≤ later := by simpa using Prod.Lex.toLex_le_toLex.mp turns
  have different : first ≠ later := by
    rintro rfl
    exact notAgain member
  exact ⟨laterUntouched, lt_of_le_of_ne ids different⟩

end Greedy

end Precedence

namespace Wiring

open Precedence

variable {nodes : List Node} {edges : List Edge} {wiring : Wiring} {waiting : List Pending}

theorem find?_wireAll {index : Nat} {wires : List Wire}
    (made : wireAll nodes index edges = .ok wires) (id : String) :
    (wires.find? fun wire => wire.touches id).map Wire.index =
      (edges.findIdx? fun edge => edge.touches id).map (index + ·) := by
  induction edges generalizing index wires with
  | nil =>
      obtain rfl : [] = wires := Except.ok.inj made
      rfl
  | cons edge edges induction =>
      simp only [wireAll, Outcome.bind_eq_ok, Outcome.pure_eq_ok] at made
      obtain ⟨first, firstMade, rest, restMade, rfl⟩ := made
      obtain ⟨sourceFound, targetFound, -, place, -, -⟩ := wire_eq_ok.mp firstMade
      have touches : first.touches id = edge.touches id := by
        simp [Wire.touches, Edge.touches, (mem_of_findNode? sourceFound).2,
          (mem_of_findNode? targetFound).2]
      rw [List.find?_cons, List.findIdx?_cons, touches]
      cases edge.touches id with
      | true => simp [place]
      | false => simp [induction restMade, Function.comp_def, Nat.add_assoc, Nat.add_comm 1]

theorem rank?_eq (built : build nodes edges = .ok wiring) (id : String) :
    wiring.rank? id = edges.findIdx? fun edge => edge.touches id := by
  simpa [rank?] using find?_wireAll (build_eq_ok.mp built).2.1 id

/-- Waiting nodes have their turns by the edges that touch them. -/
def Ranked (edges : List Edge) (waiting : List Pending) : Prop :=
  ∀ p ∈ waiting, p.turn = turn edges p.node.id

theorem pending_ranked (built : build nodes edges = .ok wiring) :
    Ranked edges wiring.pending := by
  intro p member
  obtain ⟨node, -, rfl⟩ := List.mem_map.mp member
  rw [turn, ← rank?_eq built]
  rfl

theorem release_ranked (ranked : Ranked edges waiting) (done : Node) :
    Ranked edges (wiring.release done waiting) := by
  intro p member
  obtain ⟨q, waits, rfl⟩ := List.mem_map.mp member
  exact ranked q (List.mem_of_mem_filter waits)

/-- When a node has its turn, no node is before it that waits for nobody. -/
theorem turn_le_of_drain (holds : wiring.Waiting waiting) (ranked : Ranked edges waiting)
    {turns : Nat} {before after : List Node} {node : Node}
    (split : (wiring.drain turns waiting).1 = before ++ node :: after) {id : String}
    (waits : id ∈ waitingIds waiting) (noTurn : id ∉ before.map Node.id)
    (free : ∀ source, wiring.Precedes source id → source ∈ waitingIds waiting →
      source ∈ before.map Node.id) :
    turn edges node.id ≤ turn edges id := by
  induction turns generalizing waiting before with
  | zero => simp [drain] at split
  | succ turns induction =>
      cases chosen : Pending.next? waiting with
      | none => simp [drain, chosen] at split
      | some p =>
          obtain ⟨member, -, first⟩ := Pending.next?_eq_some chosen
          simp only [drain, chosen] at split
          cases before with
          | nil =>
              simp only [List.nil_append, List.cons.injEq] at split
              obtain ⟨rfl, -⟩ := split
              obtain ⟨q, qMember, rfl⟩ := List.mem_map.mp waits
              have ready : q.unmet = 0 := by
                rw [holds.held q qMember, List.countP_eq_zero]
                intro w wireMember holding
                simp only [Bool.and_eq_true, decide_eq_true_eq, List.contains_eq_mem] at holding
                exact List.not_mem_nil
                  (free w.source.id ⟨w, wireMember, rfl, holding.1⟩ holding.2)
              rw [← ranked p member, ← ranked q qMember]
              exact first q qMember ready
          | cons head before =>
              simp only [List.cons_append, List.cons.injEq] at split
              obtain ⟨rfl, split⟩ := split
              rw [List.map_cons, List.mem_cons, not_or] at noTurn
              refine induction (release_waiting holds member) (release_ranked ranked p.node) split
                ?_ noTurn.2 ?_
              · rw [waitingIds_release, List.mem_filter]
                exact ⟨waits, by simpa using noTurn.1⟩
              · intro source precedes still
                rw [waitingIds_release, List.mem_filter] at still
                rcases List.mem_cons.mp (free source precedes still.1) with now | before
                · simp [now] at still
                · exact before

theorem order_topological (built : build nodes edges = .ok wiring) {order : List Node}
    (ordered : wiring.order = .ok order) :
    Topological edges (nodes.map Node.id) (order.map Node.id) where
  perm := (order_perm built ordered).map Node.id
  onwards edge member := by
    have proper := build_proper built
    apply (order_ordered proper ordered).idxOf_lt proper
    rw [precedes_eq built]
    exact ⟨edge, member, rfl, rfl⟩

theorem order_greedy (built : build nodes edges = .ok wiring) {order : List Node}
    (ordered : wiring.order = .ok order) :
    Greedy edges (nodes.map Node.id) (order.map Node.id) := by
  have holds := pending_waiting (build_proper built)
  have drained := congrArg Prod.fst (order_eq_ok.mp ordered)
  have all : waitingIds wiring.pending = nodes.map Node.id := by
    rw [waitingIds_pending, build_nodes built]
  have topological := order_topological built ordered
  have distinct : (nodes.map Node.id).Nodup := all ▸ holds.distinct
  refine .of_splits topological.perm ?_
  intro before id after split
  refine ⟨topological.ready distinct split, ?_⟩
  intro other ready
  obtain ⟨front, back, rfl, rfl, backIds⟩ := List.map_eq_append_iff.mp split
  obtain ⟨node, later, rfl, rfl, -⟩ := List.map_eq_cons_iff.mp backIds
  refine turn_le_of_drain holds (pending_ranked built) drained (all ▸ ready.listed) ready.waits ?_
  intro source precedes _
  rw [precedes_eq built] at precedes
  obtain ⟨edge, member, rfl, arrives⟩ := precedes
  exact ready.free edge member arrives

theorem exists_order_of_ids (built : build nodes edges = .ok wiring) {order : List Node}
    (ordered : wiring.order = .ok order) {others : List Node}
    (permutation : (others.map Node.id).Perm (nodes.map Node.id)) :
    ∃ other again, build others edges = .ok other ∧ other.order = .ok again ∧
      again.map Node.id = order.map Node.id := by
  obtain ⟨distinct, joined⟩ := exists_build.mp ⟨wiring, built⟩
  have known : ∀ {id : String}, (∃ node ∈ nodes, node.id = id) →
      ∃ node ∈ others, node.id = id := by
    intro id found
    rw [← List.mem_map, permutation.mem_iff]
    exact List.mem_map.mpr found
  have stillJoined : ∀ edge ∈ edges, edge.Joins others := by
    intro edge member
    have joins := joined edge member
    exact ⟨known joins.source, known joins.target, joins.apart⟩
  obtain ⟨other, otherBuilt⟩ := exists_build.mpr ⟨permutation.nodup_iff.mpr distinct, stillJoined⟩
  have acyclic : other.Acyclic := by
    have before := (exists_order (build_proper built)).mp ⟨order, ordered⟩
    unfold Acyclic at before ⊢
    rwa [precedes_eq otherBuilt, ← precedes_eq built]
  obtain ⟨again, otherOrdered⟩ := (exists_order (build_proper otherBuilt)).mpr acyclic
  refine ⟨other, again, otherBuilt, otherOrdered, ?_⟩
  refine (order_greedy built ordered).unique ?_ distinct ?_
  · exact (order_greedy otherBuilt otherOrdered).of_perm permutation
  · intro edge member
    exact List.mem_map.mpr (joined edge member).target

end Wiring

/-- The order of nodes gives each turn to the first of the ready nodes.  Hence edges and
ids determine it, every other order that respects the edges is lexicographically behind
it, and the nodes that no edge touches end it in the order of their ids. -/
theorem order_is_greedy {nodes : List Node} {edges : List Edge} {wiring : Wiring}
    {order : List Node} (built : Wiring.build nodes edges = .ok wiring)
    (ordered : wiring.order = .ok order) :
    Precedence.Greedy edges (nodes.map Node.id) (order.map Node.id) ∧
      (∀ other, Precedence.Greedy edges (nodes.map Node.id) other → other = order.map Node.id) ∧
      (∀ others : List Node, (others.map Node.id).Perm (nodes.map Node.id) →
        ∃ other again, Wiring.build others edges = .ok other ∧ other.order = .ok again ∧
          again.map Node.id = order.map Node.id) ∧
      Precedence.Topological edges (nodes.map Node.id) (order.map Node.id) ∧
      (∀ other, Precedence.Topological edges (nodes.map Node.id) other →
        other = order.map Node.id ∨
          List.Lex (· < ·) ((order.map Node.id).map (Precedence.turn edges))
            (other.map (Precedence.turn edges))) ∧
      (order.map Node.id).Pairwise fun first later => ¬Precedence.Touched edges first →
        ¬Precedence.Touched edges later ∧ first < later := by
  obtain ⟨distinct, joined⟩ := Wiring.exists_build.mp ⟨wiring, built⟩
  have greedy := Wiring.order_greedy built ordered
  have listed : ∀ edge ∈ edges, edge.target ∈ nodes.map Node.id := by
    intro edge member
    exact List.mem_map.mpr (joined edge member).target
  refine ⟨greedy, ?_, ?_, Wiring.order_topological built ordered, ?_, ?_⟩
  · intro other another
    exact greedy.unique another distinct listed
  · intro others permutation
    exact Wiring.exists_order_of_ids built ordered permutation
  · intro other topological
    exact greedy.eq_or_lex topological distinct
  · exact greedy.untouched_pairwise distinct

/-- A landscape with two inputs that no edge touches. -/
def Graph.outlook : Graph :=
  landscape
    |>.input "moon"
    |>.input "hill"

/-- The sea could have its turn first, but an earlier edge touches the sky. -/
theorem outlook_is_greedy :
    ∃ wiring order, Wiring.build Graph.outlook.nodes Graph.outlook.edges = .ok wiring ∧
      wiring.order = .ok order ∧
      order.map Node.id = ["sky", "dusk", "sea", "scene", "hill", "moon"] ∧
      Precedence.Greedy Graph.outlook.edges (Graph.outlook.nodes.map Node.id)
        (order.map Node.id) ∧
      List.Lex (· < ·) ((order.map Node.id).map (Precedence.turn Graph.outlook.edges))
        (["sea", "sky", "dusk", "scene", "hill", "moon"].map
          (Precedence.turn Graph.outlook.edges)) := by
  have computed : (Wiring.build Graph.outlook.nodes Graph.outlook.edges).toOption.any fun wiring =>
      wiring.order.toOption.any fun order =>
        order.map Node.id = ["sky", "dusk", "sea", "scene", "hill", "moon"] := by
    decide +kernel
  obtain ⟨wiring, built, computed⟩ := Outcome.exists_ok_of_any computed
  obtain ⟨order, ordered, ids⟩ := Outcome.exists_ok_of_any computed
  have ids : order.map Node.id = ["sky", "dusk", "sea", "scene", "hill", "moon"] :=
    of_decide_eq_true ids
  obtain ⟨greedy, -, -, -, least, -⟩ := order_is_greedy built ordered
  have topological : Precedence.Topological Graph.outlook.edges (Graph.outlook.nodes.map Node.id)
      ["sea", "sky", "dusk", "scene", "hill", "moon"] :=
    ⟨by decide, by decide⟩
  refine ⟨wiring, order, built, ordered, ids, greedy, (least _ topological).resolve_left ?_⟩
  rw [ids]
  decide

end Workflow
