import Workflow.Text

/-!
# Ports

An edge names a port of its source and of its target by a handle.  A handle is
trimmed and then read as one of the fixed names, as a name with an index in
brackets, or as a name of its own.
-/

namespace Workflow

/-- Where an edge arrives. -/
inductive TargetPort where
  /-- The only input of a node. -/
  | default
  | image
  | base
  /-- A prompt. -/
  | text
  /-- Reference images; many edges may arrive here. -/
  | references
  /-- An auxiliary input. -/
  | context
  /-- The candidates of a router. -/
  | candidates
  /-- The selection of a router. -/
  | selection
  /-- The overlay image with this index. -/
  | overlay (index : Nat)
  /-- The slot of a collector with this index. -/
  | slot (index : Nat)
  | other (handle : String)
  deriving DecidableEq

/-- Where an edge leaves. -/
inductive SourcePort where
  /-- The output of a node. -/
  | default
  /-- The slot of a fan-out with this index. -/
  | slot (index : Nat)
  /-- A field of a structured output. -/
  | field (path : String)
  /-- The context of a router. -/
  | context
  | other (handle : String)
  deriving DecidableEq

namespace Port

/-- What follows a start of a list of characters, if the list starts so. -/
def after? : List Char → List Char → Option (List Char)
  | [], cs => some cs
  | _ :: _, [] => none
  | a :: start, c :: cs => if a = c then after? start cs else none

/-- What stands between brackets that enclose the whole list. -/
def bracketed? : List Char → Option (List Char)
  | '[' :: rest =>
      match rest.reverse with
      | ']' :: inside => some inside.reverse
      | _ => none
  | _ => none

/-- The index in brackets behind a name. -/
def index? (name : String) (cs : List Char) : Option Nat := do
  let rest ← after? name.toList cs
  let inside ← bracketed? rest
  Text.naturalChars? (Text.trimChars inside)

/-- The index in brackets behind the first of the names that has one. -/
def indexAmong? (names : List String) (cs : List Char) : Option Nat :=
  names.findSome? fun name => index? name cs

end Port

namespace TargetPort

/-- The port of a trimmed handle that is not empty. -/
def ofTrimmed (handle : String) : TargetPort :=
  match handle with
  | "default" | "input" | "in" => default
  | "image" => image
  | "base" => base
  | "text" | "prompt" => text
  | "references" | "reference" => references
  | "context" => context
  | "candidates" => candidates
  | "selection" => selection
  | _ =>
      match Port.indexAmong? ["overlays", "overlay"] handle.toList with
      | some index => overlay index
      | none =>
          match Port.indexAmong? ["in", "inputs"] handle.toList with
          | some index => slot index
          | none => other handle

/-- The port that a handle names; a blank or missing handle names the default
port. -/
def ofHandle (handle : Option String) : TargetPort :=
  match handle with
  | none => default
  | some handle =>
      let trimmed := Text.trim handle
      if trimmed.isEmpty then default else ofTrimmed trimmed

/-- Whether the port carries the image that a node works on. -/
def isPrimaryImage : TargetPort → Bool
  | default | image | base => true
  | _ => false

end TargetPort

namespace SourcePort

/-- The port of a trimmed handle that is not empty. -/
def ofTrimmed (handle : String) : SourcePort :=
  match handle with
  | "default" | "output" | "out" => default
  | "context" => context
  | _ =>
      match Port.after? "output.".toList handle.toList with
      | some (c :: path) => field (String.ofList (c :: path))
      | _ =>
          match Port.indexAmong? ["out", "output"] handle.toList with
          | some index => slot index
          | none => other handle

/-- The port that a handle names; a blank or missing handle names the default
port. -/
def ofHandle (handle : Option String) : SourcePort :=
  match handle with
  | none => default
  | some handle =>
      let trimmed := Text.trim handle
      if trimmed.isEmpty then default else ofTrimmed trimmed

/-- The field that the port names. -/
def field? : SourcePort → Option String
  | field path => some path
  | _ => none

end SourcePort

end Workflow
