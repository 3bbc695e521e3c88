import Workflow.Document.Printer
import Workflow.Document.Reader
import Workflow.Document.Record
import Workflow.Repair.Basic
import Workflow.Run.Execute

/-!
# Configuration

One document sets up validation, runs, repairs and logging.  Each part and each
setting has a default, so an empty document is complete.
-/

namespace Workflow

namespace ValidatorOptions

def ofDocument? (document : Document) : Option ValidatorOptions := do
  let fields ← document.fields?
    [⟨"strictUnknownParams", []⟩, ⟨"requireSchemas", []⟩, ⟨"markerPrefix", []⟩]
  let defaults : ValidatorOptions := {}
  let strictUnknownParams ←
    fields.withDefault "strictUnknownParams" Document.bool? defaults.strictUnknownParams
  let requireSchemas ← fields.withDefault "requireSchemas" Document.bool? defaults.requireSchemas
  let markerPrefix ← fields.withDefault "markerPrefix" Document.string? defaults.markerPrefix
  some { strictUnknownParams, requireSchemas, markerPrefix }

def toDocument (options : ValidatorOptions) : Document :=
  .record [("strictUnknownParams", .bool options.strictUnknownParams),
    ("requireSchemas", .bool options.requireSchemas),
    ("markerPrefix", .string options.markerPrefix)]

end ValidatorOptions

namespace RunConfig

def ofDocument? (document : Document) : Option RunConfig := do
  let fields ← document.fields?
    [⟨"defaultImageMime", []⟩, ⟨"promptSeparator", []⟩, ⟨"emitEvents", []⟩]
  let defaults : RunConfig := {}
  let defaultImageMime ←
    fields.withDefault "defaultImageMime" Document.string? defaults.defaultImageMime
  let promptSeparator ←
    fields.withDefault "promptSeparator" Document.string? defaults.promptSeparator
  let emitEvents ← fields.withDefault "emitEvents" Document.bool? defaults.emitEvents
  some { defaultImageMime, promptSeparator, emitEvents }

def toDocument (config : RunConfig) : Document :=
  .record [("defaultImageMime", .string config.defaultImageMime),
    ("promptSeparator", .string config.promptSeparator),
    ("emitEvents", .bool config.emitEvents)]

end RunConfig

namespace RepairConfig

def ofDocument? (document : Document) : Option RepairConfig := do
  let fields ← document.fields? [⟨"maxAttempts", []⟩]
  let defaults : RepairConfig := {}
  let maxAttempts ← fields.withDefault "maxAttempts" Document.nat? defaults.maxAttempts
  some { maxAttempts }

def toDocument (config : RepairConfig) : Document :=
  .record [("maxAttempts", .nat config.maxAttempts)]

end RepairConfig

/-- How log lines are written. -/
inductive LogFormat where
  /-- For people. -/
  | pretty
  /-- One JSON object for each event. -/
  | json
  deriving DecidableEq

namespace LogFormat

def name : LogFormat → String
  | pretty => "pretty"
  | json => "json"

def ofName? (name : String) : Option LogFormat :=
  match name with
  | "pretty" => some pretty
  | "json" => some json
  | _ => none

end LogFormat

/-- All settings. -/
structure EngineConfig where
  validator : ValidatorOptions := {}
  executor : RunConfig := {}
  repair : RepairConfig := {}
  logFormat : LogFormat := .pretty
  deriving DecidableEq

/-- Why a configuration is refused. -/
inductive ConfigError where
  /-- The document cannot be read from its place. -/
  | unreadable
  /-- The text is no configuration document. -/
  | malformed
  /-- A setting has a value that it must not have. -/
  | invalid (field reason : String)
  deriving DecidableEq

namespace ConfigError

def code : String := "INVALID_CONFIG"

/-- The message about a setting. -/
def invalidMessage (field reason : String) : String :=
  s!"Invalid config value for '{field}': {reason}"

end ConfigError

namespace EngineConfig

/-- Checks the settings; the first one that is not allowed is reported. -/
def check (config : EngineConfig) : Except ConfigError Unit :=
  let mime := Text.trim config.executor.defaultImageMime
  if config.repair.maxAttempts = 0 then
    .error (.invalid "repair.maxAttempts" "must be at least 1")
  else if mime.isEmpty || !mime.toList.contains '/' then
    .error (.invalid "executor.defaultImageMime" s!"'{mime}' is not a MIME type")
  else if config.validator.markerPrefix.isEmpty then
    .error (.invalid "validator.markerPrefix" "must not be empty")
  else
    .ok ()

def ofDocument? (document : Document) : Option EngineConfig := do
  let fields ← document.fields?
    [⟨"validator", []⟩, ⟨"executor", []⟩, ⟨"repair", []⟩, ⟨"logFormat", []⟩]
  let defaults : EngineConfig := {}
  let validator ←
    fields.withDefault "validator" ValidatorOptions.ofDocument? defaults.validator
  let executor ← fields.withDefault "executor" RunConfig.ofDocument? defaults.executor
  let repair ← fields.withDefault "repair" RepairConfig.ofDocument? defaults.repair
  let logFormat ←
    fields.withDefault "logFormat" (Document.word? LogFormat.ofName?) defaults.logFormat
  some { validator, executor, repair, logFormat }

def toDocument (config : EngineConfig) : Document :=
  .record [("validator", config.validator.toDocument), ("executor", config.executor.toDocument),
    ("repair", config.repair.toDocument), ("logFormat", .string config.logFormat.name)]

def text (config : EngineConfig) : String :=
  config.toDocument.text

/-- Reads and checks a document. -/
def load (document : Option Document) : Except ConfigError EngineConfig :=
  match document.bind ofDocument? with
  | none => .error .malformed
  | some config => config.check.map fun _ => config

/-- Reads and checks the document that fills a text. -/
def ofText (text : String) : Except ConfigError EngineConfig :=
  load (Document.ofText? text)

end EngineConfig

end Workflow
