import Mathlib.Data.List.Forall2
import Workflow.Proofs.Deliveries
import Workflow.Proofs.Indices
import Workflow.Proofs.Steps

/-!
# Fan-outs that are joined again

A collector that takes the slots of a fan-out in their order reads the very variables that
the fan-out binds.  Since a run only adds to its store, the collector finds there what the
fan-out has put into its slots, and binds the same list.
-/

namespace Workflow

open Lowering

/-- Edges that lead the slots of a fan-out, from the first slot to the last, to places of a
collector that ascend; there may be gaps between the places. -/
structure Edge.Rejoin (split : String) (edges : List Edge) : Prop where
  source : ∀ edge ∈ edges, edge.source = split
  leaves : edges.map (fun edge => SourcePort.ofHandle edge.sourceHandle) =
    (List.range edges.length).map .slot
  arrives : ∃ places : List Nat, places.Pairwise (· < ·) ∧
    edges.map (fun edge => TargetPort.ofHandle edge.targetHandle) = places.map .slot

/-- What a fan-out makes of a value: as many copies of it as there are slots, or the items
of an array in its structured content, which are as many. -/
inductive Node.Divides (node : Node) (source : Value) : List Value → Prop where
  | copies :
      node.textParam? "mode" ≠ some "array" →
      Divides node source (List.replicate node.slots source)
  | items {name property : String} {content : Json} {items : List Json} :
      node.textParam? "mode" = some "array" →
      node.firstTextParam? ["arrayProperty", "array_property"] = some (name, property) →
      source.structured? = some content →
      content.lookup? property = some (.array items) →
      items.length = node.slots →
      Divides node source (items.map Value.ofJson)

namespace Edge

variable {nodes : List Node} {edges arriving : List Edge} {split : Node}

theorem filterMap_slotted {places : List Nat}
    (arrives : edges.map (fun edge => TargetPort.ofHandle edge.targetHandle) =
      places.map .slot) :
    edges.filterMap (slotted? nodes) = places.zip (edges.map (Edge.variable nodes)) := by
  induction edges generalizing places with
  | nil =>
      obtain rfl := List.map_eq_nil_iff.mp arrives.symm
      rfl
  | cons edge edges induction =>
      cases places with
      | nil => cases arrives
      | cons place places =>
          obtain ⟨here, rest⟩ := List.cons_eq_cons.mp arrives
          replace here : TargetPort.ofHandle edge.targetHandle = .slot place := here
          have brings : slotted? nodes edge = some (place, edge.variable nodes) := by
            rw [slotted?, here]
          rw [List.filterMap_cons_some brings, induction rest]
          rfl

/-- The edges read the slots of the fan-out in their order. -/
theorem Rejoin.variables (rejoin : Rejoin split.id edges) (distinct : (nodes.map Node.id).Nodup)
    (member : split ∈ nodes) (splits : split.kind = .fanOut) :
    edges.map (Edge.variable nodes) = (List.range edges.length).map (slotVariable split.id) := by
  have found : Wiring.findNode? nodes split.id = some split :=
    (Wiring.findNode?_eq_some distinct).mpr ⟨member, rfl⟩
  apply List.ext_getElem (by simp)
  intro slot within _
  rw [List.length_map] at within
  have leaves : SourcePort.ofHandle edges[slot].sourceHandle = .slot slot := by
    have same := congrArg (·[slot]?) rejoin.leaves
    simpa [within] using same
  have source := rejoin.source edges[slot] (List.getElem_mem within)
  simp [Edge.variable, source, found, splits, leaves]

theorem Rejoin.through_eq_nil (rejoin : Rejoin split.id edges) (all : edges.Perm arriving) :
    through (fun port => !port.isSlot) arriving = [] := by
  obtain ⟨places, -, arrives⟩ := rejoin.arrives
  apply List.filter_eq_nil_iff.mpr
  intro edge member
  have arriving : TargetPort.ofHandle edge.targetHandle ∈ places.map TargetPort.slot := by
    rw [← arrives]
    exact List.mem_map_of_mem (all.mem_iff.mpr member)
  obtain ⟨place, -, here⟩ := List.mem_map.mp arriving
  simp [← here, TargetPort.isSlot]

theorem Rejoin.inputs (rejoin : Rejoin split.id edges) (all : edges.Perm arriving)
    (distinct : (nodes.map Node.id).Nodup) (member : split ∈ nodes)
    (splits : split.kind = .fanOut) {step : CollectStep} (follows : step.Follows nodes arriving) :
    step.inputs = (List.range edges.length).map (slotVariable split.id) := by
  obtain ⟨slotted, permutation, ascending, inputs⟩ := follows
  obtain ⟨places, placesAscend, arrives⟩ := rejoin.arrives
  have many : places.length = edges.length := by
    simpa using (congrArg List.length arrives).symm
  have zipped : edges.filterMap (slotted? nodes) =
      places.zip (edges.map (Edge.variable nodes)) :=
    filterMap_slotted arrives
  have firsts : (places.zip (edges.map (Edge.variable nodes))).map Prod.fst = places :=
    List.map_fst_zip (by simp [many])
  have seconds : (places.zip (edges.map (Edge.variable nodes))).map Prod.snd =
      edges.map (Edge.variable nodes) :=
    List.map_snd_zip (by simp [many])
  have arranged : slotted = places.zip (edges.map (Edge.variable nodes)) := by
    have same := permutation.trans (all.filterMap (slotted? nodes)).symm
    rw [zipped] at same
    rw [← firsts, List.pairwise_map] at placesAscend
    refine same.eq_of_pairwise ?_ ascending placesAscend
    intro first second _ _ below above
    exact absurd (below.trans above) (Nat.lt_irrefl _)
  rw [inputs, arranged, seconds, rejoin.through_eq_nil all, List.map_nil, List.append_nil,
    rejoin.variables distinct member splits]

end Edge

namespace Flow

variable {scope : Scope} {store : Store} {bindings : Bindings} {values : List Value}

theorem fanOut_eq_ok {step : FanOutStep} :
    fanOut scope store step = .ok bindings ↔
      ∃ source values, store.get? step.input = some source ∧
        slots scope step source = .ok values ∧
          bindings = (step.node, .list values) :: step.out.zip values := by
  simp only [fanOut, Outcome.bind_eq_ok, Outcome.pure_eq_ok, Scope.read_eq_ok]
  constructor
  · intro made
    obtain ⟨source, held, values, filled, rfl⟩ := made
    exact ⟨source, values, held, filled, rfl⟩
  · intro parts
    obtain ⟨source, values, held, filled, rfl⟩ := parts
    exact ⟨source, held, values, filled, rfl⟩

theorem arrayItems_eq_ok {name : String} {content : Json} :
    arrayItems scope name content = .ok values ↔
      ∃ items, content = .array items ∧ values = items.map Value.ofJson := by
  cases content with
  | array items => simp [arrayItems, eq_comm]
  | null | bool _ | number _ | string _ | object _ => simp [arrayItems]

theorem slots_of_count {step : FanOutStep} {source : Value} (mode : step.mode = .count)
    (filled : slots scope step source = .ok values) :
    values = List.replicate step.count source := by
  rw [slots, mode] at filled
  exact (Except.ok.inj filled).symm

theorem slots_of_array {step : FanOutStep} {source : Value} {property : String}
    (mode : step.mode = .array) (named : step.arrayProperty = some property)
    (filled : slots scope step source = .ok values) :
    ∃ content items, source.structured? = some content ∧
      content.lookup? property = some (.array items) ∧ items.length = step.count ∧
        values = items.map Value.ofJson := by
  rw [slots, mode, named] at filled
  obtain ⟨elements, made, kept⟩ := Outcome.bind_eq_ok.mp filled
  split at kept
  · rename_i fits
    obtain rfl := Outcome.pure_eq_ok.mp kept
    simp only [Flow.elements, Outcome.bind_eq_ok, Scope.structured_eq_ok, Scope.path_eq_ok,
      arrayItems_eq_ok] at made
    obtain ⟨content, holds, _, found, items, rfl, rfl⟩ := made
    exact ⟨content, items, holds, found, by simpa using fits, rfl⟩
  · cases kept

/-- Where all names are bound, a collector takes the values of all of them. -/
theorem filterMap_get? {names : List String}
    (held : List.Forall₂ (fun name value => store.get? name = some value) names values) :
    names.filterMap store.get? = values := by
  induction held with
  | nil => rfl
  | cons here _ induction => rw [List.filterMap_cons_some here, induction]

/-- A collector that finds all that it reads binds the list of it, and so does one that
waits for nothing. -/
theorem collect_of_held {step : CollectStep} (made : collect scope store step = .ok bindings)
    (held : List.Forall₂ (fun name value => store.get? name = some value) step.inputs values) :
    bindings = [(step.out, .list values)] := by
  simp only [collect] at made
  split at made
  · cases made
  · rw [← Except.ok.inj made, filterMap_get? held]

end Flow

namespace Node.Lowers

variable {node : Node} {arriving : List Wire} {step : FanOutStep}

theorem exists_fanOut {made : Step} (lowers : node.Lowers arriving made)
    (splits : node.kind = .fanOut) : ∃ step, made = .fanOut step := by
  cases lowers with
  | fanOut => exact ⟨_, rfl⟩
  | generate kind | transform kind | save kind | vision kind | text kind | collect kind
  | router kind =>
      rw [kind] at splits
      cases splits

theorem exists_collect {made : Step} (lowers : node.Lowers arriving made)
    (joins : node.kind = .collect) : ∃ step, made = .collect step := by
  cases lowers with
  | collect => exact ⟨_, rfl⟩
  | generate kind | transform kind | save kind | vision kind | text kind | fanOut kind
  | router kind =>
      rw [kind] at joins
      cases joins

theorem slots_of_fanOut (lowers : node.Lowers arriving (.fanOut step)) :
    1 ≤ node.slots ∧ step.count = node.slots ∧
      step.out = (List.range node.slots).map (slotVariable node.id) := by
  cases lowers with
  | @fanOut _ _ count _ _ _ _ counted _ =>
      have slots : node.slots = count := by
        rw [Node.slots, counted, Option.getD_some]
      rw [slots]
      exact ⟨(width?_bounds counted).1, rfl, rfl⟩

/-- What the step of a fan-out puts into its slots is what the node makes of its input. -/
theorem divides (lowers : node.Lowers arriving (.fanOut step)) {scope : Scope} {source : Value}
    {values : List Value} (filled : Flow.slots scope step source = .ok values) :
    node.Divides source values := by
  obtain ⟨-, counts, -⟩ := lowers.slots_of_fanOut
  cases lowers with
  | fanOut _ _ chosen _ property =>
      obtain ⟨-, mode⟩ := (choice_eq_ok (by decide)).mp chosen
      by_cases isArray : node.textParam? "mode" = some "array"
      · rw [if_pos isArray] at mode
        subst mode
        rw [arrayProperty?] at property
        split at property
        · rename_i name given
          obtain rfl := Except.ok.inj property
          obtain ⟨content, items, holds, found, fits, rfl⟩ := Flow.slots_of_array rfl rfl filled
          exact .items isArray given holds found (fits.trans counts)
        · cases property
      · rw [if_neg isArray] at mode
        obtain rfl := Flow.slots_of_count mode filled
        rw [counts]
        exact .copies isArray

end Node.Lowers

namespace Compile.Course

variable {nodes : List Node} {edges : List Edge} {wiring : Wiring} {order : List Node}
  {compiled : Compiled} {node : Node}

theorem exists_step (course : Course nodes edges wiring order compiled) (member : node ∈ nodes)
    (worker : node.kind ≠ .input) :
    ∃ index step, compiled.pipeline.steps[index]? = some step ∧
      compiled.pipeline.position? node.id = some index ∧
        node.Lowers (wiring.incoming node.id) step := by
  obtain ⟨step, only, lowers⟩ := course.step_of_node member worker
  have listed : step ∈ compiled.pipeline.steps :=
    List.mem_of_mem_filter (only ▸ List.mem_singleton_self step)
  obtain ⟨index, found⟩ := List.mem_iff_getElem?.mp listed
  have position := course.position?_of_getElem? found
  rw [lowers.node_eq] at position
  exact ⟨index, step, found, position, lowers⟩

theorem input_of_fanOut (course : Course nodes edges wiring order compiled) {step : FanOutStep}
    (lowers : node.Lowers (wiring.incoming node.id) (.fanOut step)) :
    (Edge.leadingTo node.id edges).map (Edge.variable nodes) = [step.input] := by
  have supplied : Supplied (fun _ => true) (wiring.incoming node.id) [step.input] := by
    cases lowers with
    | fanOut _ supplied => exact supplied
  have reads := supplied.perm
  rw [Wiring.variables_incoming course.built, ← Edge.through_leadingTo, Edge.through,
    List.filter_true] at reads
  exact List.perm_singleton.mp reads.symm

/-- The collector comes after the fan-out, since an edge leads to it. -/
theorem position_lt_of_rejoin (course : Course nodes edges wiring order compiled)
    {split join : Node} (splitMember : split ∈ nodes) (joinMember : join ∈ nodes)
    (splits : split.kind = .fanOut) (joins : join.kind = .collect) {arranged : List Edge}
    (rejoin : Edge.Rejoin split.id arranged) (some : 0 < arranged.length)
    (all : arranged.Perm (Edge.leadingTo join.id edges)) {first last : Nat}
    (splitPosition : compiled.pipeline.position? split.id = .some first)
    (joinPosition : compiled.pipeline.position? join.id = .some last) : first < last := by
  obtain ⟨edge, member⟩ := List.exists_mem_of_length_pos some
  obtain ⟨listed, leads⟩ := List.mem_filter.mp (all.mem_iff.mp member)
  have leaves := rejoin.source edge member
  have arrives := of_decide_eq_true leads
  obtain ⟨i, j, sourceAt, targetAt, below⟩ := course.position?_lt listed splitMember joinMember
    leaves.symm arrives.symm (by simp [splits]) (by simp [joins])
  rw [leaves, splitPosition, Option.some.injEq] at sourceAt
  rw [arrives, joinPosition, Option.some.injEq] at targetAt
  rw [sourceAt, targetAt]
  exact below

end Compile.Course

theorem Store.get?_of_fresh {store : Store} {bindings : Bindings} {name : String} {value : Value}
    (fresh : store.Fresh bindings.names) (listed : (name, value) ∈ bindings) :
    Store.get? ⟨store.entries ++ bindings⟩ name = some value := by
  have unbound : name ∉ store.names := fresh.unbound name (List.mem_map_of_mem listed)
  rw [get?, List.lookup_append, lookup_eq_none_of_notMem unbound, Option.none_or]
  exact (lookup_eq_some_iff_mem fresh.distinct).mpr listed

namespace Run

variable {config : RunConfig} {answer : Request → Reply} {index : Nat} {store : Store}

theorem outcome_fanOut (step : FanOutStep) :
    outcome config answer index store (.fanOut step) =
      Flow.fanOut ((Step.fanOut step).scope index) store step := by
  simp only [outcome, action]
  cases Flow.fanOut ((Step.fanOut step).scope index) store step <;> rfl

theorem outcome_collect (step : CollectStep) :
    outcome config answer index store (.collect step) =
      Flow.collect ((Step.collect step).scope index) store step := by
  simp only [outcome, action]
  cases Flow.collect ((Step.collect step).scope index) store step <;> rfl

end Run

/-- A store in which a fan-out has put values into its slots. -/
structure FanOutStep.Filled (step : FanOutStep) (store : Store) (source : Value)
    (values : List Value) : Prop where
  input : store.get? step.input = some source
  whole : store.get? step.node = some (.list values)
  slots : List.Forall₂ (fun name value => store.get? name = some value) step.out values

theorem FanOutStep.Filled.mono {step : FanOutStep} {store later : Store} {source : Value}
    {values : List Value} (filled : step.Filled store source values)
    (continues : store.entries <+: later.entries) : step.Filled later source values where
  input := Store.get?_of_prefix continues filled.input
  whole := Store.get?_of_prefix continues filled.whole
  slots := filled.slots.imp fun _ _ held => Store.get?_of_prefix continues held

theorem FanOutStep.Filled.get?_slot {step : FanOutStep} {store : Store} {source : Value}
    {values : List Value} (filled : step.Filled store source values) {node : String}
    {count slot : Nat} (out : step.out = (List.range count).map (slotVariable node))
    (within : slot < count) : store.get? (slotVariable node slot) = values[slot]? := by
  have slots := filled.slots
  rw [out, List.forall₂_map_left_iff] at slots
  obtain ⟨length, each⟩ := List.forall₂_iff_get.mp slots
  rw [List.length_range] at length
  have held := each slot (by simpa using within) (length ▸ within)
  simpa [length ▸ within] using held

theorem Flow.exists_filled {scope : Scope} {store : Store} {step : FanOutStep}
    {bindings : Bindings} (consistent : step.out.length = step.count)
    (made : fanOut scope store step = .ok bindings) (fresh : store.Fresh bindings.names) :
    ∃ source values, slots scope step source = .ok values ∧ values.length = step.count ∧
      step.Filled ⟨store.entries ++ bindings⟩ source values := by
  obtain ⟨source, values, held, filled, rfl⟩ := fanOut_eq_ok.mp made
  have counted : values.length = step.count := (slots_grounded step source).value values filled
  refine ⟨source, values, filled, counted, ?_, ?_, ?_⟩
  · exact Store.get?_of_prefix (List.prefix_append _ _) held
  · exact Store.get?_of_fresh fresh List.mem_cons_self
  · refine List.forall₂_iff_zip.mpr ⟨consistent.trans counted.symm, ?_⟩
    intro name value listed
    exact Store.get?_of_fresh fresh (List.mem_cons_of_mem _ listed)

namespace Pipeline

variable {pipeline : Pipeline} {config : RunConfig} {host : Host σ} {initial : KeyMap Value}
  {state : σ} {result : RunResult} {index : Nat}

/-- In a run that succeeds, each step adds to the store that the steps before it leave what
it comes to on that store. -/
theorem exists_outcome {step : Step}
    (success : (pipeline.execute config host initial state).1 = .ok result)
    (found : pipeline.steps[index]? = some step) :
    ∃ answer bindings,
      Run.outcome config answer index
        (pipeline.runFirst config host initial state index).2.store step = .ok bindings ∧
      (pipeline.runFirst config host initial state index).2.store.Fresh bindings.names ∧
      (pipeline.runFirst config host initial state (index + 1)).2.store =
        ⟨(pipeline.runFirst config host initial state index).2.store.entries ++ bindings⟩ := by
  obtain ⟨after, ran⟩ := exists_runFirst success (index + 1)
  obtain ⟨before, earlier, passes⟩ := exists_runStep_of_runFirst found ran
  obtain ⟨bindings, made, fresh, store, -, -⟩ := (Run.turn_of_runStep passes).of_ok
  rw [ran, earlier]
  exact ⟨_, bindings, made, fresh, store⟩

theorem prefix_of_success {count : Nat} (within : count ≤ pipeline.steps.length)
    (success : (pipeline.execute config host initial state).1 = .ok result) :
    (pipeline.runFirst config host initial state count).2.store.entries <+:
      result.store.entries := by
  obtain ⟨before, ran⟩ := exists_runFirst success count
  rw [← store_of_success success, ran]
  exact runFirst_extends within ran

/-- A fan-out of a run that succeeds fills its slots. -/
theorem exists_filled {step : FanOutStep} (consistent : step.out.length = step.count)
    (success : (pipeline.execute config host initial state).1 = .ok result)
    (found : pipeline.steps[index]? = some (.fanOut step)) :
    ∃ source values,
      Flow.slots ((Step.fanOut step).scope index) step source = .ok values ∧
      values.length = step.count ∧
      step.Filled (pipeline.runFirst config host initial state (index + 1)).2.store source
        values := by
  obtain ⟨_, bindings, made, fresh, store⟩ := exists_outcome success found
  rw [Run.outcome_fanOut] at made
  rw [store]
  exact Flow.exists_filled consistent made fresh

theorem get?_of_collect {step : CollectStep} {values : List Value}
    (success : (pipeline.execute config host initial state).1 = .ok result)
    (found : pipeline.steps[index]? = some (.collect step))
    (held : List.Forall₂ (fun name value =>
      (pipeline.runFirst config host initial state index).2.store.get? name = some value)
      step.inputs values) :
    (pipeline.runFirst config host initial state (index + 1)).2.store.get? step.out =
      some (.list values) := by
  obtain ⟨_, bindings, made, fresh, store⟩ := exists_outcome success found
  rw [Run.outcome_collect] at made
  obtain rfl := Flow.collect_of_held made held
  rw [store]
  exact Store.get?_of_fresh fresh List.mem_cons_self

end Pipeline

/-- A collector that takes all slots of a fan-out, in their order, has the value of the
fan-out in every run that succeeds: the list of what is in the slots, which is what the
fan-out makes of its input. -/
theorem compile_rejoins {name : String} {nodes : List Node} {edges : List Edge}
    {compiled : Compiled} (success : Compile.named name nodes edges = .ok compiled)
    {split join : Node} (splitMember : split ∈ nodes) (joinMember : join ∈ nodes)
    (splits : split.kind = .fanOut) (joins : join.kind = .collect) {arranged : List Edge}
    (rejoin : Edge.Rejoin split.id arranged) (whole : arranged.length = split.slots)
    (all : arranged.Perm (Edge.leadingTo join.id edges)) (config : RunConfig) (host : Host σ)
    (initial : KeyMap Value) (state : σ) {result : RunResult}
    (succeeds : (compiled.pipeline.execute config host initial state).1 = .ok result) :
    ∃ input source values,
      (Edge.leadingTo split.id edges).map (Edge.variable nodes) = [input] ∧
      result.value? input = some source ∧ split.Divides source values ∧
      values.length = split.slots ∧
      (∀ slot < split.slots, result.value? s!"{split.id}_{slot}" = values[slot]?) ∧
      result.value? split.id = some (.list values) ∧
      result.value? join.id = result.value? split.id := by
  obtain ⟨-, wiring, order, course⟩ := Compile.named_eq_ok.mp success
  have distinct := (Wiring.exists_build.mp ⟨wiring, course.built⟩).1
  obtain ⟨first, made, splitFound, splitPosition, splitLowers⟩ :=
    course.exists_step splitMember (by simp [splits])
  obtain ⟨splitStep, rfl⟩ := splitLowers.exists_fanOut splits
  obtain ⟨last, made, joinFound, joinPosition, joinLowers⟩ :=
    course.exists_step joinMember (by simp [joins])
  obtain ⟨joinStep, rfl⟩ := joinLowers.exists_collect joins
  obtain ⟨some, counts, out⟩ := splitLowers.slots_of_fanOut
  have earlier : first < last :=
    course.position_lt_of_rejoin splitMember joinMember splits joins rejoin (whole ▸ some) all
      splitPosition joinPosition
  obtain ⟨source, values, slots, counted, filled⟩ :=
    Pipeline.exists_filled splitLowers.consistent succeeds splitFound
  have inputs : joinStep.inputs = splitStep.out := by
    rw [rejoin.inputs all distinct splitMember splits (course.collect_follows joinLowers), whole,
      out]
  have found := filled.mono (Pipeline.runFirst_mono _ _ _ _ _ earlier)
  have joined := Pipeline.get?_of_collect succeeds joinFound (inputs ▸ found.slots)
  have atLast := found.mono (Pipeline.prefix_of_success
    (Nat.le_of_lt (List.getElem?_eq_some_iff.mp joinFound).1) succeeds)
  replace joined := Store.get?_of_prefix (Pipeline.prefix_of_success
    (List.getElem?_eq_some_iff.mp joinFound).1 succeeds) joined
  have splitNode : splitStep.node = split.id := splitLowers.node_eq
  have joinNode : joinStep.out = join.id := joinLowers.node_eq
  have wholeList : result.value? split.id = .some (.list values) := splitNode ▸ atLast.whole
  refine ⟨splitStep.input, source, values, course.input_of_fanOut splitLowers, atLast.input,
    splitLowers.divides slots, counted.trans counts, ?_, wholeList, ?_⟩
  · intro slot within
    exact atLast.get?_slot out within
  · rw [wholeList, ← joinNode]
    exact joined

/-- A graph that takes the verses of a letter apart and puts them together again. -/
def Graph.letter : Graph :=
  ({} : Graph)
    |>.collect "poem" "available"
    |>.addNode (({ id := "verse", kind := .fanOut } : Node)
      |>.withParam "mode" (.string "array")
      |>.withParam "count" (.nat 3)
      |>.withParam "arrayProperty" (.string "verses"))
    |>.input "letter"
    |>.edge "letter" "verse"
    |>.edgeBetween "verse" "out[2]" "poem" "in[7]"
    |>.edgeBetween "verse" "out[0]" "poem" "in[1]"
    |>.edgeBetween "verse" " output[1] " "poem" "inputs[ 4 ]"

def Value.letter : Value :=
  .data "\x7b\"verses\": [\"roses\", 1, null]\x7d"

theorem letter_rejoins :
    ∃ compiled result values,
      Compile.named "letter" Graph.letter.nodes Graph.letter.edges = .ok compiled ∧
      (compiled.pipeline.execute {} Host.silent (.single "letter" .letter) ()).1 = .ok result ∧
      values.length = 3 ∧ result.value? "verse_2" = values[2]? ∧
      result.value? "verse" = some (.list values) ∧
      result.value? "poem" = result.value? "verse" := by
  have computed : (Compile.named "letter" Graph.letter.nodes
      Graph.letter.edges).toOption.any fun compiled =>
        (compiled.pipeline.execute {} Host.silent (.single "letter" .letter)
          ()).1.toOption.isSome := by
    decide +kernel
  obtain ⟨compiled, success, runs⟩ := Outcome.exists_ok_of_any computed
  obtain ⟨result, succeeds⟩ := Outcome.exists_ok runs
  let edges := Graph.letter.edges
  let arranged := [edges.get ⟨2, by decide⟩, edges.get ⟨3, by decide⟩, edges.get ⟨1, by decide⟩]
  have rejoin : Edge.Rejoin "verse" arranged := by
    refine ⟨by decide, by decide, [1, 4, 7], by decide, by decide⟩
  obtain ⟨input, source, values, -, -, -, many, slots, whole, same⟩ :=
    compile_rejoins success (List.get_mem Graph.letter.nodes ⟨1, by decide⟩)
      (List.get_mem Graph.letter.nodes ⟨0, by decide⟩) rfl rfl rejoin (by decide) (by decide) {}
      Host.silent _ () succeeds
  exact ⟨compiled, result, values, success, succeeds, many, slots 2 (by decide), whole, same⟩

end Workflow
