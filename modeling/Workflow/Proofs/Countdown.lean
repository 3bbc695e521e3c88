import Workflow.Graph.Builder
import Workflow.Proofs.Cycle
import Workflow.Proofs.WellFormed

/-!
# Counting wires down

The order can be found with a counter for each node, of the wires that hold it back,
and a heap of the nodes that nothing holds back.  A node that is taken from the heap
passes its wires, and each of them lowers the counter of its target by one.  Such a
loop gives the same turns as `Wiring.drain`: no counter is lowered below zero, no
node enters the heap twice, and what is left in the counters tells who is trapped.
-/

namespace Workflow

/-- The counters and the heap of a loop that gives nodes their turns. -/
structure Countdown where
  /-- How many wires still hold the node with an id back. -/
  unmet : String → Nat
  /-- The nodes in the heap. -/
  ready : List Node
  /-- The nodes that were put into the heap, the first one first. -/
  entered : List Node
  /-- The nodes that were taken from the heap, the first one first. -/
  turns : List Node := []

namespace Countdown

def enter (count : Countdown) (node : Node) : Countdown :=
  { count with ready := count.ready ++ [node], entered := count.entered ++ [node] }

def take (count : Countdown) (node : Node) : Countdown :=
  { count with ready := count.ready.erase node, turns := count.turns ++ [node] }

/-- Lowers the counter of a wire's target, which must not be zero.  When it comes to
zero, the target is put into the heap. -/
def pass (count : Countdown) (wire : Wire) : Option Countdown :=
  match count.unmet wire.target.id with
  | 0 => none
  | left + 1 =>
      let lowered := { count with unmet := Function.update count.unmet wire.target.id left }
      some (if left = 0 then lowered.enter wire.target else lowered)

end Countdown

namespace Wiring

def outgoing (wiring : Wiring) (id : String) : List Wire :=
  wiring.wires.filter fun wire => wire.source.id = id

def least? (wiring : Wiring) (ready : List Node) : Option Node :=
  (Pending.next? (ready.map fun node => ⟨node, wiring.rank? node.id, 0⟩)).map Pending.node

def countdown (wiring : Wiring) : Countdown :=
  let free := wiring.nodes.filter fun node => (wiring.incoming node.id).length = 0
  { unmet := fun id => (wiring.incoming id).length, ready := free, entered := free }

/-- Takes nodes from the heap, at most as many as the first argument says.  There is
no result if a counter would be lowered below zero. -/
def runDown (wiring : Wiring) : Nat → Countdown → Option Countdown
  | 0, count => some count
  | turns + 1, count =>
      match wiring.least? count.ready with
      | none => some count
      | some node => do
          let next ← (wiring.outgoing node.id).foldlM Countdown.pass (count.take node)
          runDown wiring turns next

/-- What the counters and the turns say in the end. -/
def verdict (wiring : Wiring) (count : Countdown) : Except CompileError (List Node) :=
  if count.turns.length < wiring.nodes.length then
    .error (.cycle ((wiring.nodes.filter fun node => 0 < count.unmet node.id).map Node.id))
  else
    .ok count.turns

end Wiring

namespace Countdown

/-- What passing wires comes to; the given nodes enter the heap. -/
structure Passed (wires : List Wire) (count later : Countdown) (fresh : List Node) : Prop where
  unmet : ∀ id, later.unmet id + wires.countP (fun w => w.target.id = id) = count.unmet id
  ready : later.ready = count.ready ++ fresh
  entered : later.entered = count.entered ++ fresh
  turns : later.turns = count.turns
  distinct : (fresh.map Node.id).Nodup
  released : ∀ node ∈ fresh, (∃ w ∈ wires, w.target = node) ∧ later.unmet node.id = 0
  complete : ∀ w ∈ wires, later.unmet w.target.id = 0 → w.target.id ∈ fresh.map Node.id

namespace Passed

variable {wires : List Wire} {count later : Countdown} {fresh : List Node} {w : Wire}

theorem unmet_pos (passed : Passed wires count later fresh) (member : w ∈ wires) :
    0 < count.unmet w.target.id := by
  have counted : 0 < wires.countP fun other => other.target.id = w.target.id :=
    List.countP_pos_iff.mpr ⟨w, member, by simp⟩
  have total := passed.unmet w.target.id
  omega

theorem nil (count : Countdown) : Passed [] count count [] where
  unmet id := by simp
  ready := by simp
  entered := by simp
  turns := rfl
  distinct := List.nodup_nil
  released := by simp
  complete := by simp

/-- A wire that brings its target's counter to zero is the last one that leads
there. -/
theorem cons_last (last : count.unmet w.target.id = 1)
    (passed : Passed wires
      ({ count with unmet := Function.update count.unmet w.target.id 0 }.enter w.target)
      later fresh) :
    Passed (w :: wires) count later (w.target :: fresh) := by
  have ended : later.unmet w.target.id = 0 := by
    have total := passed.unmet w.target.id
    simp only [enter, Function.update_self] at total
    omega
  have nobodyElse : ∀ other ∈ wires, other.target.id ≠ w.target.id := by
    intro other member same
    have positive := passed.unmet_pos member
    simp [enter, same] at positive
  constructor
  · intro id
    have total := passed.unmet id
    by_cases here : w.target.id = id
    · subst here
      simp only [enter, Function.update_self] at total
      simp only [List.countP_cons, decide_true, if_true]
      omega
    · have elsewhere : id ≠ w.target.id := Ne.symm here
      simp only [enter, Function.update_of_ne elsewhere] at total
      simpa [List.countP_cons, here] using total
  · simpa [enter] using passed.ready
  · simpa [enter] using passed.entered
  · exact passed.turns
  · rw [List.map_cons, List.nodup_cons]
    refine ⟨?_, passed.distinct⟩
    intro again
    obtain ⟨node, member, same⟩ := List.mem_map.mp again
    obtain ⟨⟨other, otherMember, rfl⟩, -⟩ := passed.released node member
    exact nobodyElse other otherMember same
  · intro node member
    rcases List.mem_cons.mp member with rfl | inRest
    · exact ⟨⟨w, List.mem_cons_self, rfl⟩, ended⟩
    · obtain ⟨⟨other, otherMember, same⟩, zero⟩ := passed.released node inRest
      exact ⟨⟨other, List.mem_cons_of_mem _ otherMember, same⟩, zero⟩
  · intro other member zero
    rcases List.mem_cons.mp member with rfl | inRest
    · exact List.mem_cons_self
    · exact List.mem_cons_of_mem _ (passed.complete other inRest zero)

theorem cons_further {left : Nat} (before : count.unmet w.target.id = left + 2)
    (passed : Passed wires
      { count with unmet := Function.update count.unmet w.target.id (left + 1) } later fresh) :
    Passed (w :: wires) count later fresh := by
  have here : later.unmet w.target.id +
      wires.countP (fun other => other.target.id = w.target.id) = left + 1 := by
    simpa using passed.unmet w.target.id
  constructor
  · intro id
    have total := passed.unmet id
    by_cases same : w.target.id = id
    · subst same
      simp only [List.countP_cons, decide_true, if_true]
      omega
    · have elsewhere : id ≠ w.target.id := Ne.symm same
      simp only [Function.update_of_ne elsewhere] at total
      simpa [List.countP_cons, same] using total
  · exact passed.ready
  · exact passed.entered
  · exact passed.turns
  · exact passed.distinct
  · intro node member
    obtain ⟨⟨other, otherMember, same⟩, zero⟩ := passed.released node member
    exact ⟨⟨other, List.mem_cons_of_mem _ otherMember, same⟩, zero⟩
  · intro other member zero
    rcases List.mem_cons.mp member with rfl | inRest
    · have another : 0 < wires.countP fun next => next.target.id = other.target.id := by
        omega
      obtain ⟨next, nextMember, same⟩ := List.countP_pos_iff.mp another
      rw [← of_decide_eq_true same] at zero ⊢
      exact passed.complete next nextMember zero
    · exact passed.complete other inRest zero

end Passed

/-- Wires can be passed if every counter is at least the number of those that lead to
its node. -/
theorem exists_passed {wires : List Wire} (count : Countdown)
    (enough : ∀ id, wires.countP (fun w => w.target.id = id) ≤ count.unmet id) :
    ∃ later fresh, wires.foldlM pass count = some later ∧ Passed wires count later fresh := by
  induction wires generalizing count with
  | nil => exact ⟨count, [], rfl, .nil count⟩
  | cons w wires induction =>
      have stillEnough : ∀ left, count.unmet w.target.id = left + 1 → ∀ id,
          wires.countP (fun other => other.target.id = id) ≤
            Function.update count.unmet w.target.id left id := by
        intro left known id
        have total := enough id
        by_cases here : id = w.target.id
        · subst here
          simp only [List.countP_cons, decide_true, if_true] at total
          rw [Function.update_self]
          omega
        · have elsewhere : w.target.id ≠ id := Ne.symm here
          simpa [List.countP_cons, elsewhere, here] using total
      rcases known : count.unmet w.target.id with _ | _ | left
      · have total := enough w.target.id
        simp [known] at total
      · obtain ⟨later, fresh, ran, passed⟩ :=
          induction ({ count with
            unmet := Function.update count.unmet w.target.id 0 }.enter w.target)
            (stillEnough 0 known)
        refine ⟨later, w.target :: fresh, ?_, passed.cons_last known⟩
        simpa [pass, known] using ran
      · obtain ⟨later, fresh, ran, passed⟩ :=
          induction { count with
            unmet := Function.update count.unmet w.target.id (left + 1) }
            (stillEnough (left + 1) known)
        refine ⟨later, fresh, ?_, passed.cons_further known⟩
        simpa [pass, known] using ran

end Countdown

theorem Pending.next?_filter (waiting : List Pending) :
    next? (waiting.filter fun p => p.unmet = 0) = next? waiting := by
  induction waiting with
  | nil => rfl
  | cons p rest induction =>
      by_cases free : p.unmet = 0
      · rw [List.filter_cons_of_pos (by simpa using free)]
        simp only [next?, free, ne_eq, not_true_eq_false, if_false, induction]
      · rw [List.filter_cons_of_neg (by simpa using free), induction]
        simp [next?, free]

namespace Wiring

/-- The counters and the heap tell which nodes wait, and for how many wires. -/
structure Tracks (wiring : Wiring) (count : Countdown) (waiting : List Pending) : Prop where
  holds : wiring.Waiting waiting
  ranked : ∀ p ∈ waiting, p.rank = wiring.rank? p.node.id
  /-- Whoever is wired to a waiting node waits as well. -/
  behind : ∀ w ∈ wiring.wires, w.source.id ∈ waitingIds waiting →
    w.target ∈ waiting.map Pending.node
  unmet : ∀ id, count.unmet id = wiring.wires.countP fun w =>
    w.target.id = id && (waitingIds waiting).contains w.source.id
  ready : count.ready.Perm ((waiting.filter fun p => p.unmet = 0).map Pending.node)
  entered : count.entered.Perm (count.turns ++ count.ready)
  all : (count.turns ++ waiting.map Pending.node).Perm wiring.nodes

variable {wiring : Wiring} {count later : Countdown} {waiting : List Pending} {p : Pending}

theorem countdown_tracks (proper : wiring.Proper) :
    wiring.Tracks wiring.countdown wiring.pending := by
  constructor
  · exact pending_waiting proper
  · intro p member
    obtain ⟨node, -, rfl⟩ := List.mem_map.mp member
    rfl
  · intro w member _
    rw [nodes_pending]
    exact proper.target_mem w member
  · intro id
    simp only [countdown, incoming, waitingIds_pending, ← List.countP_eq_length_filter]
    apply List.countP_congr
    intro w member
    have known : w.source.id ∈ wiring.nodes.map Node.id :=
      List.mem_map_of_mem (proper.source_mem w member)
    simp [known]
  · simp [countdown, pending, List.filter_map, Function.comp_def]
  · simp [countdown]
  · simp [countdown, nodes_pending]

namespace Tracks

theorem nodup_nodes (tracks : wiring.Tracks count waiting) :
    ((waiting.map Pending.node).map Node.id).Nodup := by
  simpa [waitingIds, Function.comp_def] using tracks.holds.distinct

theorem eq_of_id (tracks : wiring.Tracks count waiting) {node : Node}
    (member : node ∈ waiting.map Pending.node) (waits : p ∈ waiting)
    (same : node.id = p.node.id) : node = p.node :=
  List.inj_on_of_nodup_map tracks.nodup_nodes member (List.mem_map_of_mem waits) same

theorem unmet_eq (tracks : wiring.Tracks count waiting) (member : p ∈ waiting) :
    count.unmet p.node.id = p.unmet := by
  rw [tracks.unmet, tracks.holds.held p member]

theorem mem_ready (tracks : wiring.Tracks count waiting) {node : Node} :
    node ∈ count.ready ↔ ∃ p ∈ waiting, p.unmet = 0 ∧ p.node = node := by
  rw [tracks.ready.mem_iff]
  simp [and_assoc]

theorem nodup_ready (tracks : wiring.Tracks count waiting) : count.ready.Nodup := by
  rw [tracks.ready.nodup_iff]
  exact tracks.nodup_nodes.of_map.sublist (List.filter_sublist.map Pending.node)

/-- The heap offers the node whose turn comes. -/
theorem least?_eq (tracks : wiring.Tracks count waiting) :
    wiring.least? count.ready = (Pending.next? waiting).map Pending.node := by
  have entries : ((waiting.filter fun p => p.unmet = 0).map Pending.node).map
      (fun node => (⟨node, wiring.rank? node.id, 0⟩ : Pending)) =
        waiting.filter fun p => p.unmet = 0 := by
    rw [List.map_map]
    refine (List.map_congr_left ?_).trans (List.map_id _)
    intro p member
    obtain ⟨waits, free⟩ := List.mem_filter.mp member
    have zero : p.unmet = 0 := of_decide_eq_true free
    cases p
    simp_all [← tracks.ranked _ waits]
  have permutation := tracks.ready.map fun node => (⟨node, wiring.rank? node.id, 0⟩ : Pending)
  rw [entries] at permutation
  have distinct : ((waiting.filter fun p => p.unmet = 0).map fun p => p.node.id).Nodup :=
    tracks.holds.distinct.sublist (List.filter_sublist.map _)
  unfold least?
  rw [← Pending.next?_filter waiting, Pending.next?_perm permutation.symm distinct]

theorem target_ne_of_ready (tracks : wiring.Tracks count waiting) (member : p ∈ waiting)
    (free : p.unmet = 0) {w : Wire} (wireMember : w ∈ wiring.wires)
    (waits : w.source.id ∈ waitingIds waiting) : w.target.id ≠ p.node.id := by
  intro same
  have none := tracks.holds.held p member
  rw [free] at none
  have absent := List.countP_eq_zero.mp none.symm w wireMember
  simp [same, waits] at absent

/-- The counters suffice for the wires that leave a waiting node. -/
theorem enough (tracks : wiring.Tracks count waiting) (member : p ∈ waiting) (id : String) :
    (wiring.outgoing p.node.id).countP (fun w => w.target.id = id) ≤ count.unmet id := by
  rw [tracks.unmet, wiring.countP_release member, outgoing, List.countP_filter]
  exact Nat.le_add_right _ _

variable {fresh : List Node}

theorem unmet_after (tracks : wiring.Tracks count waiting)
    (passed : Countdown.Passed (wiring.outgoing p.node.id) (count.take p.node) later fresh)
    {q : Pending} (waits : q ∈ waiting) :
    later.unmet q.node.id =
      q.unmet - (wiring.outgoing p.node.id).countP fun w => w.target.id = q.node.id := by
  have total := passed.unmet q.node.id
  rw [show (count.take p.node).unmet = count.unmet from rfl, tracks.unmet_eq waits] at total
  omega

/-- Who is ready after a turn, by the counters. -/
theorem mem_ready_release (tracks : wiring.Tracks count waiting)
    (passed : Countdown.Passed (wiring.outgoing p.node.id) (count.take p.node) later fresh)
    {node : Node} :
    node ∈ ((wiring.release p.node waiting).filter fun q => q.unmet = 0).map Pending.node ↔
      ∃ q ∈ waiting, q.node.id ≠ p.node.id ∧ later.unmet q.node.id = 0 ∧ q.node = node := by
  simp only [Wiring.release, List.mem_map, List.mem_filter, decide_eq_true_eq]
  constructor
  · rintro ⟨_, ⟨⟨q, ⟨waits, other⟩, rfl⟩, zero⟩, rfl⟩
    exact ⟨q, waits, other, (tracks.unmet_after passed waits).trans zero, rfl⟩
  · rintro ⟨q, waits, other, zero, rfl⟩
    have free := (tracks.unmet_after passed waits).symm.trans zero
    exact ⟨_, ⟨⟨q, ⟨waits, other⟩, rfl⟩, free⟩, rfl⟩

theorem target_waits (tracks : wiring.Tracks count waiting) (proper : wiring.Proper)
    (member : p ∈ waiting) {w : Wire} (leaving : w ∈ wiring.outgoing p.node.id) :
    w.target.id ≠ p.node.id ∧ ∃ q ∈ waiting, q.node = w.target := by
  obtain ⟨wireMember, leaves⟩ := List.mem_filter.mp leaving
  have source : w.source.id = p.node.id := of_decide_eq_true leaves
  constructor
  · rw [← source]
    exact (proper.apart w wireMember).symm
  · exact List.mem_map.mp
      (tracks.behind w wireMember (source ▸ List.mem_map_of_mem member))

/-- A node is ready after a turn exactly if it was in the heap before, or enters it
now. -/
theorem mem_ready_after (tracks : wiring.Tracks count waiting) (proper : wiring.Proper)
    (member : p ∈ waiting)
    (passed : Countdown.Passed (wiring.outgoing p.node.id) (count.take p.node) later fresh)
    {node : Node} :
    node ∈ count.ready.erase p.node ++ fresh ↔
      node ∈ ((wiring.release p.node waiting).filter fun q => q.unmet = 0).map Pending.node := by
  rw [tracks.mem_ready_release passed, List.mem_append, tracks.nodup_ready.mem_erase_iff,
    tracks.mem_ready]
  constructor
  · rintro (⟨different, q, waits, zero, rfl⟩ | entering)
    · refine ⟨q, waits, ?_, ?_, rfl⟩
      · intro same
        exact different (tracks.eq_of_id (List.mem_map_of_mem waits) member same)
      · rw [tracks.unmet_after passed waits, zero, Nat.zero_sub]
    · obtain ⟨⟨w, leaving, rfl⟩, zero⟩ := passed.released node entering
      obtain ⟨other, q, waits, same⟩ := tracks.target_waits proper member leaving
      rw [← same] at other zero
      exact ⟨q, waits, other, zero, same⟩
  · rintro ⟨q, waits, other, zero, rfl⟩
    by_cases before : q.unmet = 0
    · left
      exact ⟨fun same => other (congrArg Node.id same), q, waits, before, rfl⟩
    · right
      obtain ⟨w, leaving, arrives⟩ : ∃ w ∈ wiring.outgoing p.node.id, w.target.id = q.node.id := by
        have lowered := tracks.unmet_after passed waits
        obtain ⟨w, leaving, arrives⟩ := List.countP_pos_iff.mp
          (show 0 < (wiring.outgoing p.node.id).countP
            (fun w => w.target.id = q.node.id) by omega)
        exact ⟨w, leaving, of_decide_eq_true arrives⟩
      obtain ⟨node, entering, same⟩ := List.mem_map.mp
        (passed.complete w leaving (arrives.symm ▸ zero))
      obtain ⟨⟨entry, entryLeaving, rfl⟩, -⟩ := passed.released node entering
      obtain ⟨-, found, foundWaits, target⟩ := tracks.target_waits proper member entryLeaving
      have equal := tracks.eq_of_id (target ▸ List.mem_map_of_mem foundWaits) waits
        (same.trans arrives)
      exact equal ▸ entering

theorem disjoint_fresh (tracks : wiring.Tracks count waiting)
    (passed : Countdown.Passed (wiring.outgoing p.node.id) (count.take p.node) later fresh) :
    count.ready.Disjoint fresh := by
  intro node isReady entering
  obtain ⟨q, waits, free, rfl⟩ := tracks.mem_ready.mp isReady
  obtain ⟨⟨w, leaving, same⟩, -⟩ := passed.released _ entering
  have positive := passed.unmet_pos leaving
  rw [same, show (count.take p.node).unmet = count.unmet from rfl, tracks.unmet_eq waits,
    free] at positive
  exact Nat.lt_irrefl 0 positive

/-- A turn keeps counters and heap in step with the nodes that wait. -/
theorem release (tracks : wiring.Tracks count waiting) (proper : wiring.Proper)
    (member : p ∈ waiting) (free : p.unmet = 0)
    (passed : Countdown.Passed (wiring.outgoing p.node.id) (count.take p.node) later fresh) :
    wiring.Tracks later (wiring.release p.node waiting) := by
  have isReady : p.node ∈ count.ready := tracks.mem_ready.mpr ⟨p, member, free, rfl⟩
  have taken : later.ready = count.ready.erase p.node ++ fresh := passed.ready
  have turned : later.turns = count.turns ++ [p.node] := passed.turns
  have nowHolds := release_waiting tracks.holds member
  constructor
  · exact nowHolds
  · intro q qMember
    simp only [Wiring.release, List.mem_map, List.mem_filter] at qMember
    obtain ⟨q, ⟨waits, -⟩, rfl⟩ := qMember
    exact tracks.ranked q waits
  · intro w wireMember waits
    rw [waitingIds_release, List.mem_filter] at waits
    have apart := tracks.target_ne_of_ready member free wireMember waits.1
    rw [nodes_release, List.mem_filter]
    exact ⟨tracks.behind w wireMember waits.1, by simpa using apart⟩
  · intro id
    have total := passed.unmet id
    rw [show (count.take p.node).unmet = count.unmet from rfl, tracks.unmet,
      wiring.countP_release member, outgoing, List.countP_filter] at total
    omega
  · have disjoint : (count.ready.erase p.node).Disjoint fresh := fun _ waits =>
      tracks.disjoint_fresh passed (List.mem_of_mem_erase waits)
    have freshNodup : fresh.Nodup := .of_map _ passed.distinct
    have nodes : ((wiring.release p.node waiting).map Pending.node).Nodup := by
      rw [nodes_release]
      exact tracks.nodup_nodes.of_map.filter _
    rw [taken, List.perm_ext_iff_of_nodup
      ((tracks.nodup_ready.erase _).append freshNodup disjoint)
      (nodes.sublist (List.filter_sublist.map Pending.node))]
    intro node
    exact tracks.mem_ready_after proper member passed
  · rw [show later.entered = count.entered ++ fresh from passed.entered, taken, turned,
      List.append_assoc, List.singleton_append, ← List.cons_append, ← List.append_assoc]
    exact (tracks.entered.trans ((List.perm_cons_erase isReady).append_left _)).append_right fresh
  · rw [turned, List.append_assoc, List.singleton_append]
    exact ((nodes_perm_release tracks.holds member).append_left _).trans tracks.all

/-- The loop gives the turns that `drain` gives. -/
theorem runDown (tracks : wiring.Tracks count waiting) (proper : wiring.Proper) (turns : Nat) :
    ∃ final, wiring.runDown turns count = some final ∧
      wiring.Tracks final (wiring.drain turns waiting).2 ∧
        final.turns = count.turns ++ (wiring.drain turns waiting).1 := by
  induction turns generalizing count waiting with
  | zero => exact ⟨count, rfl, tracks, by simp [drain]⟩
  | succ turns induction =>
      have least := tracks.least?_eq
      cases chosen : Pending.next? waiting with
      | none =>
          rw [chosen] at least
          refine ⟨count, ?_, ?_, ?_⟩
          · simp [Wiring.runDown, least]
          · simpa [drain, chosen] using tracks
          · simp [drain, chosen]
      | some p =>
          obtain ⟨member, free, -⟩ := Pending.next?_eq_some chosen
          rw [chosen] at least
          obtain ⟨later, fresh, ran, passed⟩ :=
            Countdown.exists_passed (count.take p.node) (tracks.enough member)
          obtain ⟨final, rest, finalTracks, finalTurns⟩ :=
            induction (tracks.release proper member free passed)
          refine ⟨final, ?_, ?_, ?_⟩
          · simp [Wiring.runDown, least, ran, rest]
          · simpa [drain, chosen] using finalTracks
          · have turned : later.turns = count.turns ++ [p.node] := passed.turns
            simp [drain, chosen, finalTurns, turned]

theorem nodup_entered (tracks : wiring.Tracks count waiting) (proper : wiring.Proper) :
    count.entered.Nodup := by
  have nodes : (count.turns ++ waiting.map Pending.node).Nodup :=
    tracks.all.nodup_iff.mpr (.of_map _ proper.distinct)
  have entered := tracks.entered.trans (tracks.ready.append_left count.turns)
  rw [entered.nodup_iff]
  exact nodes.sublist ((List.filter_sublist.map Pending.node).append_left count.turns)

/-- Where nobody is ready any more, the nodes with a counter above zero are those that
wait. -/
theorem unmet_pos_iff (tracks : wiring.Tracks count waiting)
    (stuck : Pending.next? waiting = none) {id : String} :
    0 < count.unmet id ↔ id ∈ waitingIds waiting := by
  constructor
  · intro positive
    rw [tracks.unmet, List.countP_pos_iff] at positive
    obtain ⟨w, member, holding⟩ := positive
    simp only [Bool.and_eq_true, decide_eq_true_eq, List.contains_eq_mem] at holding
    obtain ⟨p, waits, same⟩ := List.mem_map.mp (tracks.behind w member holding.2)
    rw [← holding.1, ← same]
    exact List.mem_map_of_mem waits
  · intro waits
    obtain ⟨p, member, rfl⟩ := List.mem_map.mp waits
    rw [tracks.unmet_eq member]
    exact Nat.pos_of_ne_zero (Pending.next?_eq_none.mp stuck p member)

end Tracks

/-- The loop ends with an empty heap and comes to the order, or to those who have
none. -/
theorem exists_runDown (proper : wiring.Proper) :
    ∃ final, wiring.runDown wiring.nodes.length wiring.countdown = some final ∧
      final.ready = [] ∧ final.entered.Nodup ∧ wiring.verdict final = wiring.order := by
  obtain ⟨final, ran, tracks, turned⟩ :=
    (countdown_tracks proper).runDown proper wiring.nodes.length
  have stuck : Pending.next? (wiring.drain wiring.nodes.length wiring.pending).2 = none :=
    drain_stuck (pending_waiting proper) (by simp [pending])
  have turns : final.turns = (wiring.drain wiring.nodes.length wiring.pending).1 := by
    simpa [countdown] using turned
  have left : (wiring.nodes.filter fun node => 0 < final.unmet node.id) =
      (wiring.drain wiring.nodes.length wiring.pending).2.map Pending.node := by
    rw [nodes_drain, nodes_pending]
    apply List.filter_congr
    intro node member
    rw [decide_eq_decide, tracks.unmet_pos_iff stuck, mem_waitingIds_iff_notMem _ member]
  refine ⟨final, ran, ?_, tracks.nodup_entered proper, ?_⟩
  · apply List.eq_nil_iff_forall_not_mem.mpr
    intro node isReady
    obtain ⟨p, member, free, -⟩ := tracks.mem_ready.mp isReady
    exact Pending.next?_eq_none.mp stuck p member free
  · have everybody := tracks.all.length_eq
    unfold verdict order
    rw [left, turns]
    rw [turns] at everybody
    generalize wiring.drain wiring.nodes.length wiring.pending = drained at everybody
    obtain ⟨nodes, _ | ⟨p, left⟩⟩ := drained
    · simp only [List.map_nil, List.append_nil] at everybody
      simp [everybody]
    · simp only [List.length_append, List.map_cons, List.length_cons] at everybody
      have fewer : nodes.length < wiring.nodes.length := by omega
      simp [fewer]

end Wiring

/-- Without a cycle the nodes have an order in which every edge leads onwards.  With
a cycle, exactly the nodes that lie on one or behind one are named, as the graph
lists them.  The loop with counters and a heap comes to the same: it lowers no
counter below zero, no node enters the heap twice, and the heap is empty in the
end. -/
theorem order_sound_and_complete {nodes : List Node} {edges : List Edge} {wiring : Wiring}
    (built : Wiring.build nodes edges = .ok wiring) :
    ((∀ id, ¬Relation.TransGen (Edge.Precedes edges) id id) →
        ∃ order, wiring.order = .ok order ∧ order.Perm nodes ∧
          ∀ edge ∈ edges,
            (order.map Node.id).idxOf edge.source < (order.map Node.id).idxOf edge.target) ∧
      ((∃ id, Relation.TransGen (Edge.Precedes edges) id id) →
        ∃ left, wiring.order = .error (.cycle left) ∧ left.Sublist (nodes.map Node.id) ∧
          ∀ id, id ∈ left ↔ ∃ start, Relation.TransGen (Edge.Precedes edges) start start ∧
            Relation.ReflTransGen (Edge.Precedes edges) start id) ∧
      ∃ final, wiring.runDown nodes.length wiring.countdown = some final ∧
        final.ready = [] ∧ final.entered.Nodup ∧ wiring.verdict final = wiring.order := by
  have proper := Wiring.build_proper built
  rw [← Wiring.precedes_eq built, ← Wiring.build_nodes built]
  refine ⟨?_, ?_, Wiring.exists_runDown proper⟩
  · intro acyclic
    obtain ⟨order, ordered⟩ := (Wiring.exists_order proper).mpr acyclic
    have inOrder := Wiring.order_ordered proper ordered
    refine ⟨order, ordered, inOrder.perm, ?_⟩
    intro edge member
    obtain ⟨w, wireMember, carries⟩ := Wiring.exists_wire_of_edge built member
    exact inOrder.idxOf_lt proper ⟨w, wireMember, carries.source, carries.target⟩
  · rintro ⟨id, cycle⟩
    exact Wiring.order_eq_error proper ⟨id, cycle, .refl⟩

/-- Two rooms that lead to each other, one of them by two doors, a room behind them,
and a room in front of them. -/
def Graph.rooms : Graph :=
  ({} : Graph)
    |>.input "attic"
    |>.collect "hall" "all"
    |>.collect "porch" "all"
    |>.collect "kitchen" "all"
    |>.edge "hall" "kitchen"
    |>.edgeTo "hall" "kitchen" "in[1]"
    |>.edge "kitchen" "hall"
    |>.edge "kitchen" "attic"
    |>.edge "porch" "hall"

/-- The rooms on the cycle and the one behind it are named; the one in front of it has
its turn. -/
theorem rooms_sound_and_complete :
    ∃ wiring, Wiring.build Graph.rooms.nodes Graph.rooms.edges = .ok wiring ∧
      wiring.order = .error (.cycle ["attic", "hall", "kitchen"]) ∧
      (∀ id, id ∈ ["attic", "hall", "kitchen"] ↔
        ∃ start, Relation.TransGen (Edge.Precedes Graph.rooms.edges) start start ∧
          Relation.ReflTransGen (Edge.Precedes Graph.rooms.edges) start id) ∧
      ∃ final, wiring.runDown Graph.rooms.nodes.length wiring.countdown = some final ∧
        final.entered.Nodup := by
  have built : (Wiring.build Graph.rooms.nodes Graph.rooms.edges).toOption.any fun wiring =>
      wiring.order = .error (.cycle ["attic", "hall", "kitchen"]) := by
    decide +kernel
  cases found : Wiring.build Graph.rooms.nodes Graph.rooms.edges with
  | error problem =>
      rw [found] at built
      cases built
  | ok wiring =>
      rw [found] at built
      have ordered : wiring.order = .error (.cycle ["attic", "hall", "kitchen"]) :=
        of_decide_eq_true built
      obtain ⟨-, trapped, final, ran, -, once, -⟩ := order_sound_and_complete found
      have there : Edge.Precedes Graph.rooms.edges "hall" "kitchen" := by
        unfold Edge.Precedes
        decide
      have back : Edge.Precedes Graph.rooms.edges "kitchen" "hall" := by
        unfold Edge.Precedes
        decide
      obtain ⟨left, named, -, members⟩ := trapped ⟨"hall", .tail (.single there) back⟩
      obtain rfl : left = ["attic", "hall", "kitchen"] := by
        rw [ordered] at named
        injection named with same
        injection same with same
        exact same.symm
      exact ⟨wiring, rfl, ordered, members, final, ran, once⟩

end Workflow
