import DeclOrder.Json.Writing
import DeclOrder.Report.Basic

/-! Reports as JSON. What is not set has no field. -/
namespace DeclOrder.Report

def optional {α : Type} (name : String) (encode : α → Json) : Option α → List (String × Json)
  | some value => [(name, encode value)]
  | none => []

def encodeLocation (l : Location) : Json :=
  .object ([("path", .string l.path.text)] ++ optional "line" .ofNat l.line ++ optional "col" .ofNat l.column ++
    optional "end_line" .ofNat l.endLine ++ optional "end_col" .ofNat l.endColumn)

def encodeFinding (f : Finding) : Json :=
  .object ([("severity", .string f.severity.text), ("check_id", .string f.checkId), ("code", .string f.code),
    ("message", .string f.message)] ++ optional "location" encodeLocation f.location ++
    optional "help" .string f.help ++ optional "url" .string f.url ++ optional "fingerprint" .string f.fingerprint ++
    (if f.data.isNull then [] else [("data", f.data)]))

def encodeToolError (e : ToolError) : Json :=
  .object ([("rule", .string e.rule)] ++ optional "path" (fun p => .string p.text) e.path ++
    [("message", .string e.message)])

def encodeSummary (s : Summary) : Json :=
  .object ([("profile", .string s.profile), ("files_scanned", .ofNat s.filesScanned),
    ("blocks_scanned", .ofNat s.blocksScanned), ("rules_run", .strings s.rulesRun),
    ("findings_total", .ofNat s.findingsTotal), ("findings_emitted", .ofNat s.findingsEmitted)] ++
    optional "truncated_reason" .string s.truncatedReason ++
    (if s.errors.isEmpty then [] else [("errors", .array (s.errors.map encodeToolError))]))

def encodeTool (t : ToolMeta) : Json := .object [("name", .string t.name), ("version", .string t.version)]

def encode (r : Report) : Json :=
  .object [("schema", .string r.schemaId), ("tool", encodeTool r.tool), ("started_at", .string r.startedAt.text),
    ("finished_at", .string r.finishedAt.text), ("verdict", .string r.verdict.text),
    ("findings", .array (r.findings.map encodeFinding)), ("data", encodeSummary r.summary)]

def serialize (r : Report) : String := (encode r).pretty

inductive WriteError where
  | unwritableTime
  deriving DecidableEq, Repr

/-- Stands for the description of a time that cannot be written. -/
def writeErrorText : String := "<time>"

def WriteError.chain : WriteError → List String
  | .unwritableTime => ["serialize report", writeErrorText]

def written (r : Report) : Except WriteError String :=
  if r.startedAt.hasText && r.finishedAt.hasText then .ok r.serialize else .error .unwritableTime

end DeclOrder.Report
