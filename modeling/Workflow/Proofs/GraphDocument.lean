import Workflow.Graph.Document
import Workflow.Proofs.Records

/-!
# Reading back graphs

The document of a graph is read back as that graph, however the fields and kinds of its
nodes are spelt.  The parameters of a node stand behind three levels: the graph, its
list of nodes and the node.
-/

namespace Workflow

open Document

/-- The words that a kind may be written with. -/
def NodeKind.words : NodeKind → List String
  | generator => ["generator", "generate"]
  | fanOut => ["fan-out", "fanOut", "fan_out"]
  | kind => [kind.name]

theorem NodeKind.ofName?_of_mem_words (kind : NodeKind) :
    ∀ word ∈ kind.words, ofName? word = some kind := by
  cases kind <;> decide

namespace Node

/-- A document spells a node: the fields of its kind and of its parameters and the kind
itself are each written in one of several ways. -/
inductive Spelt (node : Node) : Document → Prop
  | intro {kindField word parametersField : String} : kindField ∈ ["kind", "type"] →
      word ∈ node.kind.words → parametersField ∈ ["parameters", "data", "params"] →
      node.Spelt (.record [("id", .string node.id), (kindField, .string word),
        (parametersField, .ofParams node.parameters)])

variable {node : Node} {document : Document}

theorem spelt_toDocument (node : Node) : node.Spelt node.toDocument := by
  refine .intro List.mem_cons_self ?_ List.mem_cons_self
  cases node.kind <;> exact List.mem_cons_self

theorem Spelt.exact (spelt : node.Spelt document) (exact : node.parameters.Exact) :
    document.Exact := by
  cases spelt with
  | intro =>
      refine .record ?_
      simp only [List.forall_mem_cons]
      exact ⟨.string _, .string _, exact_ofParams exact, by simp⟩

theorem Spelt.ofDocument? (spelt : node.Spelt document) (exact : node.parameters.Exact)
    (shallow : (ofParams node.parameters).depth ≤ maxLevels - 3) :
    Node.ofDocument? document = some node := by
  cases spelt with
  | @intro kindField word parametersField kind means parameters =>
      have fields : fields? knownFields (.record [("id", .string node.id),
          (kindField, .string word), (parametersField, .ofParams node.parameters)]) =
            some [("id", .string node.id), ("kind", .string word),
              ("parameters", .ofParams node.parameters)] := by
        simp only [List.mem_cons, List.not_mem_nil, or_false] at kind parameters
        rcases kind with rfl | rfl <;> rcases parameters with rfl | rfl | rfl <;> rfl
      have read := params?_ofParams exact shallow
      have meaning := node.kind.ofName?_of_mem_words word means
      simp [Node.ofDocument?, fields, Fields.required, Fields.withDefault, lookup_cons_eq_ite,
        Document.string?, word?, meaning, read]

end Node

namespace Edge

def members (edge : Edge) : List (String × Document) :=
  member "source" (.string edge.source) ++ member "target" (.string edge.target) ++
    member? "sourceHandle" .string edge.sourceHandle ++
    member? "targetHandle" .string edge.targetHandle

variable (edge : Edge)

theorem exact_toDocument : edge.toDocument.Exact := by
  refine .record ?_
  simp only [List.forall_mem_append, forall_member, forall_member?]
  exact ⟨⟨⟨.string _, .string _⟩, fun _ _ => .string _⟩, fun _ _ => .string _⟩

theorem ofDocument?_toDocument : Edge.ofDocument? edge.toDocument = some edge := by
  have names : (edge.members.map Prod.fst).Sublist (knownFields.map Field.name) := by
    simp only [members, List.map_append]
    exact ((List.Sublist.refl ["source", "target"]).append (names_member? _)).append
      (names_member? _)
  obtain ⟨fields, gathered, found⟩ := exists_fields? (by decide) (by decide) names
  obtain ⟨source, target, sourceHandle, targetHandle⟩ :
      fields.lookup "source" = some (.string edge.source) ∧
      fields.lookup "target" = some (.string edge.target) ∧
      fields.lookup "sourceHandle" = edge.sourceHandle.map .string ∧
      fields.lookup "targetHandle" = edge.targetHandle.map .string := by
    simp [found, knownFields, members, List.lookup_append]
  rw [show edge.toDocument = .record edge.members from rfl]
  simp only [Edge.ofDocument?, gathered, Fields.required_eq source, Fields.required_eq target,
    Fields.optional_string sourceHandle, Fields.optional_string targetHandle, Document.string?,
    Option.bind_eq_bind, Option.bind_some]

end Edge

namespace Graph

def members (graph : Graph) (nodes : List Document) : List (String × Document) :=
  member? "name" .string graph.name ++ member "nodes" (.list nodes) ++
    member "edges" (.list (graph.edges.map Edge.toDocument))

/-- A document spells a graph if it spells each of its nodes. -/
inductive Spelt (graph : Graph) : Document → Prop
  | intro {nodes : List Document} : List.Forall₂ Node.Spelt graph.nodes nodes →
      graph.Spelt (.record (graph.members nodes))

theorem spelt_toDocument (graph : Graph) : graph.Spelt graph.toDocument := by
  refine .intro ?_
  rw [List.forall₂_map_right_iff]
  exact List.forall₂_same.mpr fun node _ => node.spelt_toDocument

variable {graph : Graph} {document : Document}

theorem Spelt.exact (spelt : graph.Spelt document)
    (exact : ∀ node ∈ graph.nodes, node.parameters.Exact) : document.Exact := by
  obtain ⟨spelt⟩ := spelt
  refine .record ?_
  simp only [members, List.forall_mem_append, forall_member, forall_member?]
  refine ⟨⟨fun _ _ => .string _, .list ?_⟩, .list ?_⟩
  · generalize graph.nodes = nodes at spelt exact
    induction spelt with
    | nil => simp
    | cons first later induction =>
        obtain ⟨here, there⟩ := List.forall_mem_cons.mp exact
        exact List.forall_mem_cons.mpr ⟨first.exact here, induction there⟩
  · rw [List.forall_mem_map]
    exact fun edge _ => edge.exact_toDocument

theorem depth_ofParams_le (shallow : graph.toDocument.depth ≤ maxLevels) {node : Node}
    (listed : node ∈ graph.nodes) : (ofParams node.parameters).depth ≤ maxLevels - 3 := by
  have inGraph := depth_record_le_iff.mp shallow ("nodes", .list (graph.nodes.map Node.toDocument))
    (by simp [member])
  have inNodes := depth_list_le_iff.mp inGraph node.toDocument (List.mem_map_of_mem listed)
  exact depth_record_le_iff.mp inNodes ("parameters", .ofParams node.parameters) (by simp)

theorem Spelt.ofDocument? (spelt : graph.Spelt document)
    (exact : ∀ node ∈ graph.nodes, node.parameters.Exact)
    (shallow : graph.toDocument.depth ≤ maxLevels) :
    Graph.ofDocument? document = some graph := by
  obtain @⟨documents, spelt⟩ := spelt
  have names : ((graph.members documents).map Prod.fst).Sublist (knownFields.map Field.name) := by
    simp only [members, List.map_append]
    exact ((names_member? _).append (.refl ["nodes"])).append (.refl ["edges"])
  obtain ⟨fields, gathered, found⟩ := exists_fields? (by decide) (by decide) names
  obtain ⟨name, nodes, edges⟩ :
      fields.lookup "name" = graph.name.map .string ∧
      fields.lookup "nodes" = some (.list documents) ∧
      fields.lookup "edges" = some (.list (graph.edges.map Edge.toDocument)) := by
    simp [found, knownFields, members, List.lookup_append]
  have readable : ∀ node ∈ graph.nodes, node.parameters.Exact ∧
      (ofParams node.parameters).depth ≤ maxLevels - 3 :=
    fun node listed => ⟨exact node listed, depth_ofParams_le shallow listed⟩
  have nodesRead : list? Node.ofDocument? (.list documents) = some graph.nodes :=
    list?_eq <| ((List.forall₂_and_left _ _).mpr ⟨readable, spelt⟩).imp fun _ _ parts =>
      parts.2.ofDocument? parts.1.1 parts.1.2
  have edgesRead : list? Edge.ofDocument? (.list (graph.edges.map Edge.toDocument)) =
      some graph.edges :=
    list?_map fun edge _ => edge.ofDocument?_toDocument
  simp only [Graph.ofDocument?, gathered, Fields.optional_string name,
    Fields.withDefault_eq nodes, Fields.withDefault_eq edges, nodesRead, edgesRead,
    Option.bind_eq_bind, Option.bind_some]

/-- A graph whose parameters have no doubles is read back from its text, and from every
text that spells it, if its document is not too deep. -/
theorem graphs_read_back (graph : Graph)
    (exact : ∀ node ∈ graph.nodes, node.parameters.Exact)
    (shallow : graph.toDocument.depth ≤ maxLevels) :
    Graph.ofText? graph.text = some graph ∧
      ∀ document, graph.Spelt document → Graph.ofText? document.text = some graph := by
  have reads : ∀ document, graph.Spelt document → Graph.ofText? document.text = some graph := by
    intro document spelt
    rw [Graph.ofText?, (spelt.exact exact).ofText?_text, Option.bind_some,
      spelt.ofDocument? exact shallow]
  exact ⟨reads graph.toDocument graph.spelt_toDocument, reads⟩

/-- A fan-out whose parameters reach the bounds of whole numbers, hold a `null` and are
nested. -/
def bounds : Graph where
  name := some "bounds \"\\\n\x01é"
  nodes := [
    { id := "in", kind := .input },
    { id := "split", kind := .fanOut
      parameters := ⟨[("count", .int 18446744073709551615),
        ("least", .array [.int leastInt, .null]), ("mode", .null)], by decide⟩ }]
  edges := [{ source := "in", target := "split", targetHandle := some "in" }]

/-- A text that spells the fan-out in an older way. -/
def oldBounds : Document :=
  .record (bounds.members [
    .record [("id", .string "in"), ("type", .string "input"), ("data", .record [])],
    .record [("id", .string "split"), ("type", .string "fanOut"),
      ("params", .record [("count", .number (.int 18446744073709551615)),
        ("least", .list [.number (.int leastInt), .null]), ("mode", .null)])]])

theorem bounds_read_back :
    Graph.ofText? bounds.text = some bounds ∧ Graph.ofText? oldBounds.text = some bounds := by
  have count : (Json.int 18446744073709551615).Canonical :=
    Json.canonical_int (by decide) (by decide)
  have least : (Json.int leastInt).Canonical := Json.canonical_int (by decide) (by decide)
  have exact : ∀ node ∈ bounds.nodes, node.parameters.Exact := by
    simp only [bounds, List.forall_mem_cons]
    refine ⟨Params.exact_empty, ⟨?_, ?_⟩, by simp⟩
    · exact ⟨count, ⟨least, trivial, trivial⟩, trivial, trivial⟩
    · exact ⟨trivial, ⟨trivial, trivial, trivial⟩, trivial, trivial⟩
  have spelt : bounds.Spelt oldBounds := by
    refine .intro (.cons ?_ (.cons ?_ .nil))
    · exact .intro (by decide) (by decide) (by decide)
    · exact .intro (by decide) (by decide) (by decide)
  obtain ⟨self, others⟩ := bounds.graphs_read_back exact (by decide)
  exact ⟨self, others oldBounds spelt⟩

end Graph

end Workflow
