import Workflow.Document.Printer
import Workflow.Document.Reader
import Workflow.Document.Record
import Workflow.Graph.Basic

/-!
# Graph documents

Reads and writes graphs.  Older names of kinds and of the fields of a node are
read too; writing uses one name for each.
-/

namespace Workflow

namespace NodeKind

/-- The kind with a name, old names included. -/
def ofName? (name : String) : Option NodeKind :=
  match name with
  | "input" => some input
  | "generator" | "generate" => some generator
  | "transform" => some transform
  | "save" => some save
  | "vision" => some vision
  | "text" => some text
  | "fan-out" | "fanOut" | "fan_out" => some fanOut
  | "collect" => some collect
  | "router" => some router
  | _ => none

end NodeKind

namespace Node

def knownFields : List Field :=
  [⟨"id", []⟩, ⟨"kind", ["type"]⟩, ⟨"parameters", ["data", "params"]⟩]

/-- Reads a node; the graph, its list of nodes and the node itself are three
levels around its parameters. -/
def ofDocument? (document : Document) : Option Node := do
  let fields ← document.fields? knownFields
  let id ← fields.required "id" Document.string?
  let kind ← fields.required "kind" (Document.word? NodeKind.ofName?)
  let parameters ← fields.withDefault "parameters" (Document.params? (Document.maxLevels - 3)) ∅
  some { id, kind, parameters }

def toDocument (node : Node) : Document :=
  .record [("id", .string node.id), ("kind", .string node.kind.name),
    ("parameters", .ofParams node.parameters)]

end Node

namespace Edge

def knownFields : List Field :=
  [⟨"source", []⟩, ⟨"target", []⟩, ⟨"sourceHandle", []⟩, ⟨"targetHandle", []⟩]

def ofDocument? (document : Document) : Option Edge := do
  let fields ← document.fields? knownFields
  let source ← fields.required "source" Document.string?
  let target ← fields.required "target" Document.string?
  let sourceHandle ← fields.optional "sourceHandle" Document.string?
  let targetHandle ← fields.optional "targetHandle" Document.string?
  some { source, target, sourceHandle, targetHandle }

def toDocument (edge : Edge) : Document :=
  .record <|
    Document.member "source" (.string edge.source) ++
    Document.member "target" (.string edge.target) ++
    Document.member? "sourceHandle" .string edge.sourceHandle ++
    Document.member? "targetHandle" .string edge.targetHandle

end Edge

namespace Graph

def knownFields : List Field :=
  [⟨"name", []⟩, ⟨"nodes", []⟩, ⟨"edges", []⟩]

def ofDocument? (document : Document) : Option Graph := do
  let fields ← document.fields? knownFields
  let name ← fields.optional "name" Document.string?
  let nodes ← fields.withDefault "nodes" (Document.list? Node.ofDocument?) []
  let edges ← fields.withDefault "edges" (Document.list? Edge.ofDocument?) []
  some { name, nodes, edges }

def toDocument (graph : Graph) : Document :=
  .record <|
    Document.member? "name" .string graph.name ++
    Document.member "nodes" (.list (graph.nodes.map Node.toDocument)) ++
    Document.member "edges" (.list (graph.edges.map Edge.toDocument))

/-- Reads the graph document that fills a text. -/
def ofText? (text : String) : Option Graph :=
  (Document.ofText? text).bind ofDocument?

def text (graph : Graph) : String :=
  graph.toDocument.text

end Graph

end Workflow
