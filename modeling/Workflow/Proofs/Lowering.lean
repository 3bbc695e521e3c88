import Workflow.Compile.Basic
import Workflow.Proofs.References

/-!
# Steps from nodes: when and what

A node becomes a step exactly when its parameters are usable, its ports are
connected as its kind wants and its sources offer what it reads.  The step reads
one variable for each wire at the ports of its kind, and it binds the variables
of its node.
-/

namespace Workflow

open Lowering

/-- Whether nodes of a kind read the wires at a port. -/
def NodeKind.reads : NodeKind → TargetPort → Bool
  | input => fun _ => false
  | generator => TargetPort.isReference
  | transform => fun port => port.isPrimaryImage || port.isReference
  | save | fanOut | collect => fun _ => true
  | vision => fun port => port.isPrimaryImage || decide (port = .context) || port.isReference
  | text => fun port =>
      decide (port = .context) || decide (port = .default) || port.isReference
  | router => fun port => decide (port = .candidates) || decide (port = .selection)

namespace Node

/-- A parameter under one of the names is a text that is not blank. -/
def HasText (node : Node) (names : List String) : Prop :=
  ∃ name ∈ names, (node.textParam? name).isSome

/-- A parameter is one of two words, unless it is no text or a blank one. -/
def Chooses (node : Node) (name first second : String) : Prop :=
  ∀ word, node.textParam? name = some word → word = first ∨ word = second

/-- The parameters that a node of its kind needs are there, and those that it
understands have values that it understands. -/
def Usable (node : Node) : Prop :=
  match node.kind with
  | .input | .save => True
  | .generator => node.HasText ["generator", "provider"]
  | .transform => node.HasText ["operation", "op"]
  | .vision | .text => node.HasText ["provider"]
  | .fanOut =>
      (node.width? "count").isSome ∧ node.Chooses "mode" "count" "array" ∧
        (node.textParam? "mode" = some "array" → node.HasText ["arrayProperty", "array_property"])
  | .collect => node.Chooses "waitMode" "all" "available"
  | .router =>
      node.Chooses "selectionType" "index" "value" ∧
        (node.param? "outputCount" = none ∨ (node.width? "outputCount").isSome)

end Node

/-- The edges that arrive at a node, given by their ports, are those that its
kind wants: neither too few nor too many at one port. -/
def NodeKind.Connected (kind : NodeKind) (ports : List TargetPort) : Prop :=
  match kind with
  | .input => True
  | .generator => Referenced ports
  | .transform => ports.countP TargetPort.isPrimaryImage = 1 ∧ Referenced ports
  | .save | .fanOut => ports.length = 1
  | .vision =>
      (ports.countP TargetPort.isPrimaryImage ≤ 1 ∧ ports.count .context ≤ 1 ∧
        ∃ port ∈ ports, port.isPrimaryImage ∨ port = .context) ∧ Referenced ports
  | .text =>
      (ports.countP fun port => port = .context || port = .default) ≤ 1 ∧ Referenced ports
  | .collect => ports ≠ [] ∧ ∀ slot, ports.count (.slot slot) ≤ 1
  | .router => ports.count .candidates = 1 ∧ ports.count .selection = 1

namespace Lowering

variable {node : Node} {arriving : List Wire}

theorem firstTextParam?_isSome {names : List String} :
    (node.firstTextParam? names).isSome ↔ node.HasText names := by
  induction names with
  | nil => simp [Node.firstTextParam?, Node.HasText]
  | cons name names induction =>
      unfold Node.HasText at induction ⊢
      cases text : node.textParam? name with
      | none => simp [Node.firstTextParam?, text, induction]
      | some value => simp [Node.firstTextParam?, text]

theorem exists_requiredText {name : String} {names : List String} :
    (∃ found, requiredText node name names = .ok found) ↔ node.HasText (name :: names) := by
  rw [← firstTextParam?_isSome]
  unfold requiredText
  cases node.firstTextParam? (name :: names) <;> simp

theorem choice_eq_ok {name : String} {first second : String × α} {value : α}
    (different : first.1 ≠ second.1) :
    choice node name first second = .ok value ↔
      node.Chooses name first.1 second.1 ∧
        value = if node.textParam? name = some second.1 then second.2 else first.2 := by
  unfold choice Node.Chooses
  cases node.textParam? name with
  | none => simp [eq_comm]
  | some word =>
      by_cases isFirst : word = first.1
      · simp [isFirst, different, eq_comm]
      · by_cases isSecond : word = second.1
        · subst isSecond
          simp [different.symm, eq_comm]
        · simp [isFirst, isSecond]

theorem exists_choice {name : String} {first second : String × α}
    (different : first.1 ≠ second.1) :
    (∃ value, choice node name first second = .ok value) ↔
      node.Chooses name first.1 second.1 := by
  simp [choice_eq_ok different]

theorem exists_arrayProperty? {mode : FanOutMode} :
    (∃ property, arrayProperty? node mode = .ok property) ↔
      (mode = .array → node.HasText ["arrayProperty", "array_property"]) := by
  rw [← firstTextParam?_isSome]
  cases mode with
  | count => simp [arrayProperty?]
  | array =>
      cases found : node.firstTextParam? ["arrayProperty", "array_property"] <;>
        simp [arrayProperty?, found]

theorem exists_generate :
    (∃ step, generate node arriving = .ok step) ↔
      node.HasText ["generator", "provider"] ∧ Referenced (arriving.map Wire.arrives) ∧
        Offered TargetPort.isReference arriving := by
  rw [← exists_requiredText, ← exists_references node]
  simp [generate]

theorem exists_transform :
    (∃ step, transform node arriving = .ok step) ↔
      node.HasText ["operation", "op"] ∧
        ((arriving.map Wire.arrives).countP TargetPort.isPrimaryImage = 1 ∧
          Offered TargetPort.isPrimaryImage arriving) ∧
            Referenced (arriving.map Wire.arrives) ∧ Offered TargetPort.isReference arriving := by
  rw [← exists_requiredText, ← exists_references node, ← exists_singleInput node "image"
    "Transform node requires an input image connection"]
  simp [transform]

theorem exists_save :
    (∃ step, save node arriving = .ok step) ↔
      arriving.length = 1 ∧ Offered (fun _ => true) arriving := by
  have all : (arriving.map Wire.arrives).countP (fun _ => true) = arriving.length := by simp
  rw [← all, ← exists_singleInput node "in" "Save node requires an input connection"]
  simp [save]

theorem exists_visionInputs {image context : Option String} :
    (∃ inputs, visionInputs node image context = .ok inputs) ↔ image.isSome ∨ context.isSome := by
  cases image <;> cases context <;> simp [visionInputs]

theorem Supplied.isSome_iff {accepts : TargetPort → Bool} {found : Option String}
    (supplied : Supplied accepts arriving found.toList) :
    found.isSome ↔ ∃ port ∈ arriving.map Wire.arrives, accepts port := by
  have lengths := supplied.perm.length_eq
  rw [List.length_map, length_through] at lengths
  rw [← List.countP_pos_iff, ← lengths]
  cases found <;> simp

theorem exists_vision :
    (∃ step, vision node arriving = .ok step) ↔
      node.HasText ["provider"] ∧
        ((arriving.map Wire.arrives).countP TargetPort.isPrimaryImage ≤ 1 ∧
          Offered TargetPort.isPrimaryImage arriving) ∧
        ((arriving.map Wire.arrives).countP (fun port => port = .context) ≤ 1 ∧
          Offered (fun port => port = .context) arriving) ∧
        (∃ port ∈ arriving.map Wire.arrives, port.isPrimaryImage ∨ port = .context) ∧
        Referenced (arriving.map Wire.arrives) ∧ Offered TargetPort.isReference arriving := by
  rw [← exists_requiredText, ← exists_references node, ← exists_singleInput? node "image",
    ← exists_singleInput? node "context"]
  simp only [vision, Outcome.bind_eq_ok, Outcome.pure_eq_ok]
  have somewhere : ∀ {image context : Option String},
      singleInput? node arriving TargetPort.isPrimaryImage "image" = .ok image →
      singleInput? node arriving (fun port => port = .context) "context" = .ok context →
      ((∃ inputs, visionInputs node image context = .ok inputs) ↔
        ∃ port ∈ arriving.map Wire.arrives, port.isPrimaryImage ∨ port = .context) := by
    intro image context imageFound contextFound
    rw [exists_visionInputs, (singleInput?_eq_ok.mp imageFound).isSome_iff,
      (singleInput?_eq_ok.mp contextFound).isSome_iff]
    simp only [decide_eq_true_eq, and_or_left, exists_or]
  constructor
  · intro success
    obtain ⟨_, found, text, image, imageFound, context, contextFound, inputs, made, deferred,
      resolved, rfl⟩ := success
    exact ⟨⟨found, text⟩, ⟨image, imageFound⟩, ⟨context, contextFound⟩,
      (somewhere imageFound contextFound).mp ⟨inputs, made⟩, deferred, resolved⟩
  · intro conditions
    obtain ⟨⟨found, text⟩, ⟨image, imageFound⟩, ⟨context, contextFound⟩, port, deferred,
      resolved⟩ := conditions
    obtain ⟨inputs, made⟩ := (somewhere imageFound contextFound).mpr port
    exact ⟨_, found, text, image, imageFound, context, contextFound, inputs, made, deferred,
      resolved, rfl⟩

theorem exists_text :
    (∃ step, text node arriving = .ok step) ↔
      node.HasText ["provider"] ∧
        ((arriving.map Wire.arrives).countP
            (fun port => decide (port = .context) || decide (port = .default)) ≤ 1 ∧
          Offered (fun port => decide (port = .context) || decide (port = .default)) arriving) ∧
        Referenced (arriving.map Wire.arrives) ∧ Offered TargetPort.isReference arriving := by
  rw [← exists_requiredText, ← exists_references node, ← exists_singleInput? node "context"]
  simp [text]

theorem exists_fanOut :
    (∃ step, fanOut node arriving = .ok step) ↔
      (arriving.length = 1 ∧ Offered (fun _ => true) arriving) ∧
        node.Chooses "mode" "count" "array" ∧ (node.width? "count").isSome ∧
          (node.textParam? "mode" = some "array" →
            node.HasText ["arrayProperty", "array_property"]) := by
  have all : (arriving.map Wire.arrives).countP (fun _ => true) = arriving.length := by simp
  rw [← all, ← exists_singleInput node "in" "Fan-out node requires an input connection"]
  have words : ("count", FanOutMode.count).1 ≠ ("array", FanOutMode.array).1 := by decide
  simp only [fanOut, Outcome.bind_eq_ok, Outcome.pure_eq_ok, choice_eq_ok words, slotCount_eq_ok]
  have needed : ∀ {mode : FanOutMode},
      (mode = if node.textParam? "mode" = some "array" then .array else .count) →
      ((∃ property, arrayProperty? node mode = .ok property) ↔
        (node.textParam? "mode" = some "array" →
          node.HasText ["arrayProperty", "array_property"])) := by
    rintro mode rfl
    rw [exists_arrayProperty?]
    split <;> simp_all
  constructor
  · intro success
    obtain ⟨_, input, found, mode, ⟨chooses, same⟩, count, counted, property, given, rfl⟩ := success
    exact ⟨⟨input, found⟩, chooses, by simp [counted], (needed same).mp ⟨property, given⟩⟩
  · intro conditions
    obtain ⟨⟨input, found⟩, chooses, counted, needs⟩ := conditions
    obtain ⟨count, counted⟩ := Option.isSome_iff_exists.mp counted
    obtain ⟨property, given⟩ := (needed rfl).mpr needs
    exact ⟨_, input, found, _, ⟨chooses, rfl⟩, count, counted, property, given, rfl⟩

theorem exists_collect :
    (∃ step, collect node arriving = .ok step) ↔
      ((∀ slot, (arriving.map Wire.arrives).count (.slot slot) ≤ 1) ∧
        Offered (fun _ => true) arriving) ∧ arriving ≠ [] ∧
          node.Chooses "waitMode" "all" "available" := by
  have words : ("all", WaitMode.all).1 ≠ ("available", WaitMode.available).1 := by decide
  rw [← exists_gathered node, ← exists_choice words]
  simp only [collect, Outcome.bind_eq_ok]
  constructor
  · intro success
    obtain ⟨step, gathered, resolved, made⟩ := success
    split at made
    · simp at made
    · rename_i notEmpty
      simp only [Outcome.bind_eq_ok] at made
      obtain ⟨mode, chosen, -⟩ := made
      exact ⟨⟨gathered, resolved⟩, by simpa using notEmpty, mode, chosen⟩
  · intro conditions
    obtain ⟨⟨gathered, resolved⟩, notEmpty, mode, chosen⟩ := conditions
    have someWire : arriving.isEmpty = false := by simpa using notEmpty
    exact ⟨.collect { inputs := gathered.inputs, waitMode := mode, out := node.id },
      gathered, resolved, by simp [someWire, chosen]⟩

theorem exists_router :
    (∃ step, router node arriving = .ok step) ↔
      ((arriving.map Wire.arrives).countP (fun port => port = .candidates) = 1 ∧
          Offered (fun port => port = .candidates) arriving) ∧
        ((arriving.map Wire.arrives).countP (fun port => port = .selection) = 1 ∧
          Offered (fun port => port = .selection) arriving) ∧
        node.Chooses "selectionType" "index" "value" ∧
          (node.param? "outputCount" = none ∨ (node.width? "outputCount").isSome) := by
  have words : ("index", SelectionType.index).1 ≠ ("value", SelectionType.value).1 := by decide
  rw [← exists_singleInput node "candidates" "Router node requires a candidates connection",
    ← exists_singleInput node "selection" "Router node requires a selection connection",
    ← exists_choice words]
  simp [router, countParam?_eq_ok]

end Lowering

/-- A node is lowered exactly if its parameters are usable, its ports connected
and its sources offer what it reads. -/
theorem Node.exists_lower (node : Node) (arriving : List Wire) :
    (∃ step, node.lower arriving = .ok step) ↔
      node.Usable ∧ node.kind.Connected (arriving.map Wire.arrives) ∧
        Offered node.kind.reads arriving := by
  have counted : ∀ port, (arriving.map Wire.arrives).count port =
      (arriving.map Wire.arrives).countP fun other => other = port := fun _ =>
    List.count_eq_countP
  have mapped : ∀ {lowered : Except CompileError Step},
      (∃ step, lowered.map some = .ok step) ↔ ∃ step, lowered = .ok step := by
    intro lowered
    simp
  unfold Node.lower Node.Usable NodeKind.Connected
  cases node.kind with
  | input => simp [Offered, through, NodeKind.reads]
  | generator =>
      rw [mapped, exists_generate]
      rfl
  | transform =>
      rw [mapped, exists_transform]
      simp only [NodeKind.reads, offered_or]
      tauto
  | save =>
      rw [mapped, exists_save]
      simp [NodeKind.reads]
  | vision =>
      rw [mapped, exists_vision]
      simp only [NodeKind.reads, offered_or, counted]
      constructor
      · intro success
        obtain ⟨given, ⟨image, images⟩, ⟨context, contexts⟩, somewhere, referenced,
          references⟩ := success
        exact ⟨given, ⟨⟨image, context, somewhere⟩, referenced⟩, ⟨images, contexts⟩, references⟩
      · intro conditions
        obtain ⟨given, ⟨⟨image, context, somewhere⟩, referenced⟩, ⟨images, contexts⟩,
          references⟩ := conditions
        exact ⟨given, ⟨image, images⟩, ⟨context, contexts⟩, somewhere, referenced, references⟩
  | text =>
      rw [mapped, exists_text]
      simp only [NodeKind.reads, offered_or]
      tauto
  | fanOut =>
      rw [mapped, exists_fanOut]
      simp only [NodeKind.reads, List.length_map]
      tauto
  | collect =>
      rw [mapped, exists_collect]
      simp only [NodeKind.reads, ne_eq, List.map_eq_nil_iff]
      tauto
  | router =>
      rw [mapped, exists_router]
      simp only [NodeKind.reads, offered_or, counted]
      tauto

/-- How the step of a node comes about: from which parameters, and from which
of its wires. -/
inductive Node.Lowers (node : Node) (arriving : List Wire) : Step → Prop where
  | generate {name generator : String} {deferred : Deferred} (kind : node.kind = .generator)
      (provider : requiredText node "generator" ["provider"] = .ok (name, generator))
      (resolved : references node arriving = .ok deferred) :
      node.Lowers arriving (.generate {
        generator, params := without node [name], deferred, out := node.id })
  | transform {name operation input : String} {deferred : Deferred} (kind : node.kind = .transform)
      (provider : requiredText node "operation" ["op"] = .ok (name, operation))
      (image : Supplied TargetPort.isPrimaryImage arriving [input])
      (resolved : references node arriving = .ok deferred) :
      node.Lowers arriving (.transform {
        operation, input, params := without node [name], deferred, out := node.id })
  | save {input : String} (kind : node.kind = .save)
      (supplied : Supplied (fun _ => true) arriving [input]) :
      node.Lowers arriving (.save {
        node := node.id
        input
        destination := (node.textParam? "destination").getD "gallery"
        provider := (node.textParam? "provider").getD "local"
        params := without node ["destination", "provider"] })
  | vision {name provider : String} {image lone : Option String} {input : String}
      {context : Option String} {deferred : Deferred} (kind : node.kind = .vision)
      (found : requiredText node "provider" [] = .ok (name, provider))
      (images : Supplied TargetPort.isPrimaryImage arriving image.toList)
      (contexts : Supplied (fun port => port = .context) arriving lone.toList)
      (inputs : visionInputs node image lone = .ok (input, context))
      (resolved : references node arriving = .ok deferred) :
      node.Lowers arriving (.vision {
        provider, input, context, params := without node [name], deferred, out := node.id })
  | text {name provider : String} {input : Option String} {deferred : Deferred}
      (kind : node.kind = .text)
      (found : requiredText node "provider" [] = .ok (name, provider))
      (contexts : Supplied (fun port => decide (port = .context) || decide (port = .default))
        arriving input.toList)
      (resolved : references node arriving = .ok deferred) :
      node.Lowers arriving (.text {
        provider, input, params := without node [name], deferred, out := node.id })
  | fanOut {input : String} {mode : FanOutMode} {count : Nat} {arrayProperty : Option String}
      (kind : node.kind = .fanOut) (supplied : Supplied (fun _ => true) arriving [input])
      (chosen : choice node "mode" ("count", .count) ("array", .array) = .ok mode)
      (counted : node.width? "count" = some count)
      (property : arrayProperty? node mode = .ok arrayProperty) :
      node.Lowers arriving (.fanOut {
        node := node.id
        input, mode, count, arrayProperty
        out := (List.range count).map (slotVariable node.id) })
  | collect {gathered : Gathered} {waitMode : WaitMode} (kind : node.kind = .collect)
      (resolved : arriving.foldlM (gather node) {} = .ok gathered) (notEmpty : arriving ≠ [])
      (chosen : choice node "waitMode" ("all", .all) ("available", .available) = .ok waitMode) :
      node.Lowers arriving (.collect { inputs := gathered.inputs, waitMode, out := node.id })
  | router {input selectionInput : String} {selectionType : SelectionType}
      {outputCount : Option Nat} (kind : node.kind = .router)
      (candidates : Supplied (fun port => port = .candidates) arriving [input])
      (selection : Supplied (fun port => port = .selection) arriving [selectionInput])
      (chosen : choice node "selectionType" ("index", .index) ("value", .value) = .ok selectionType)
      (counted : countParam? node "outputCount" = .ok outputCount) :
      node.Lowers arriving (.router {
        input, selectionInput, selectionType
        selectionProperty := node.textParam? "selectionProperty"
        outputCount := outputCount.getD 1
        contextProperty := node.textParam? "contextProperty"
        out := node.id
        contextOut := (node.textParam? "contextProperty").map fun _ => contextVariable node.id })

namespace Node

variable {node : Node} {arriving : List Wire} {step : Step}

theorem lower_of_input (isInput : node.kind = .input) : node.lower arriving = .ok none := by
  simp [lower, isInput]

theorem lower_eq_none (lowered : node.lower arriving = .ok none) : node.kind = .input := by
  unfold lower at lowered
  cases kind : node.kind <;> simp [kind] at lowered ⊢

theorem lowers_of_lower (lowered : node.lower arriving = .ok (some step)) :
    node.Lowers arriving step := by
  unfold lower at lowered
  cases kind : node.kind <;> simp only [kind, Outcome.map_eq_ok, Option.some.injEq,
    exists_eq_right, Except.ok.injEq, reduceCtorEq] at lowered
  case generator =>
    simp only [Lowering.generate, Outcome.bind_eq_ok, Outcome.pure_eq_ok] at lowered
    obtain ⟨_, provider, _, resolved, rfl⟩ := lowered
    exact .generate kind provider resolved
  case transform =>
    simp only [Lowering.transform, Outcome.bind_eq_ok, Outcome.pure_eq_ok,
      singleInput_eq_ok] at lowered
    obtain ⟨_, provider, _, image, _, resolved, rfl⟩ := lowered
    exact .transform kind provider image resolved
  case save =>
    simp only [Lowering.save, Outcome.bind_eq_ok, Outcome.pure_eq_ok, singleInput_eq_ok] at lowered
    obtain ⟨_, supplied, rfl⟩ := lowered
    exact .save kind supplied
  case vision =>
    simp only [Lowering.vision, Outcome.bind_eq_ok, Outcome.pure_eq_ok,
      singleInput?_eq_ok] at lowered
    obtain ⟨_, found, _, images, _, contexts, _, inputs, _, resolved, rfl⟩ := lowered
    exact .vision kind found images contexts inputs resolved
  case text =>
    simp only [Lowering.text, Outcome.bind_eq_ok, Outcome.pure_eq_ok,
      singleInput?_eq_ok] at lowered
    obtain ⟨_, found, _, contexts, _, resolved, rfl⟩ := lowered
    exact .text kind found contexts resolved
  case fanOut =>
    simp only [Lowering.fanOut, Outcome.bind_eq_ok, Outcome.pure_eq_ok, singleInput_eq_ok,
      slotCount_eq_ok] at lowered
    obtain ⟨_, supplied, _, chosen, _, counted, _, property, rfl⟩ := lowered
    exact .fanOut kind supplied chosen counted property
  case collect =>
    simp only [Lowering.collect, Outcome.bind_eq_ok] at lowered
    obtain ⟨_, resolved, made⟩ := lowered
    split at made
    · simp at made
    · rename_i notEmpty
      simp only [Outcome.bind_eq_ok, Outcome.pure_eq_ok] at made
      obtain ⟨_, chosen, rfl⟩ := made
      exact .collect kind resolved (by simpa using notEmpty) chosen
  case router =>
    simp only [Lowering.router, Outcome.bind_eq_ok, Outcome.pure_eq_ok,
      singleInput_eq_ok] at lowered
    obtain ⟨_, candidates, _, selection, _, chosen, _, counted, rfl⟩ := lowered
    exact .router kind candidates selection chosen counted

theorem visionInputs_toList {image lone : Option String} {input : String}
    {context : Option String} (made : visionInputs node image lone = .ok (input, context)) :
    input :: context.toList = image.toList ++ lone.toList := by
  cases image <;> cases lone <;> simp [visionInputs] at made <;> simp [← made.1, ← made.2]

/-- A step reads one variable for each wire at the ports that its kind reads. -/
theorem Lowers.supplied (lowers : node.Lowers arriving step) :
    Supplied node.kind.reads arriving step.inputs := by
  cases lowers with
  | generate kind _ resolved =>
      rw [kind]
      simpa [NodeKind.reads, Step.inputs, Step.primaryInput?, Step.furtherInputs,
        Step.deferred?] using references_supplied resolved
  | transform kind _ image resolved =>
      rw [kind]
      refine image.append (references_supplied resolved) ?_
      intro port
      cases port <;> simp [TargetPort.isPrimaryImage, TargetPort.isReference]
  | save kind supplied =>
      rw [kind]
      exact supplied
  | vision kind _ images contexts inputs resolved =>
      rw [kind]
      have both := images.append contexts (by
        intro port
        cases port <;> simp [TargetPort.isPrimaryImage])
      rw [← visionInputs_toList inputs] at both
      refine both.append (references_supplied resolved) ?_
      intro port
      cases port <;> simp [TargetPort.isPrimaryImage, TargetPort.isReference]
  | text kind _ contexts resolved =>
      rw [kind]
      have both := contexts.append (references_supplied resolved) (by
        intro port
        cases port <;> simp [TargetPort.isReference])
      simpa [NodeKind.reads, Step.inputs, Step.primaryInput?, Step.furtherInputs,
        Step.deferred?] using both
  | fanOut kind supplied =>
      rw [kind]
      exact supplied
  | collect kind resolved =>
      rw [kind]
      simpa [NodeKind.reads, Step.inputs, Step.primaryInput?, Step.furtherInputs,
        Step.deferred?] using gathered_supplied resolved
  | router kind candidates selection =>
      rw [kind]
      refine candidates.append selection ?_
      intro port
      cases port <;> simp

theorem Lowers.node_eq (lowers : node.Lowers arriving step) : step.node = node.id := by
  cases lowers <;> rfl

theorem Lowers.outputs_eq (lowers : node.Lowers arriving step) : step.outputs = node.outputs := by
  unfold Node.outputs
  cases lowers with
  | fanOut kind _ _ counted => simp [kind, Step.outputs, slots, counted]
  | generate kind | transform kind | save kind | vision kind | text kind | collect kind
  | router kind => rw [kind]; rfl

theorem bound_eq_outputs {lowered : Option Step} (lowers : node.lower arriving = .ok lowered) :
    Compile.bound node lowered = node.outputs := by
  cases lowered with
  | none =>
      unfold Node.outputs
      rw [lower_eq_none lowers]
      rfl
  | some step => exact (lowers_of_lower lowers).outputs_eq

end Node

end Workflow
