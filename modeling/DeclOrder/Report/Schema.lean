import DeclOrder.Json.Schema

/-! The schema of reports. -/
namespace DeclOrder.Report
open Json.Schema

def findingSchema : List (String × Json) :=
  record ["severity", "check_id", "code", "message"] [
    ("severity", reference "Severity"),
    ("check_id", described "Name of the rule that produced the finding." (typed "string")),
    ("code", typed "string"),
    ("message", typed "string"),
    ("location", nullableReference "Location"),
    ("help", nullable "string"),
    ("url", nullable "string"),
    ("fingerprint", described ("Stable identifier intended for dedup and trending. A hash of\n" ++
      "`check_id + code + path + salient fields`.") (nullable "string")),
    ("data", [("description", .string "Rule-specific structured payload.")])]

def locationSchema : List (String × Json) :=
  record ["path"] [("path", reference "RepoPath"), ("line", nullableWord), ("col", nullableWord),
    ("end_line", nullableWord), ("end_col", nullableWord)]

def pathSchema : List (String × Json) :=
  described ("Canonical repo-relative path of a Terraform file, as it appears in findings.\n\nNormalization:\n" ++
    "- always forward slashes (`/`)\n- no leading `./`\n- the module root itself is `.`") (typed "string")

def summarySchema : List (String × Json) :=
  described "Tfguard-specific summary payload for the report." (record
    ["profile", "files_scanned", "blocks_scanned", "rules_run", "findings_total", "findings_emitted"] [
    ("profile", typed "string"),
    ("files_scanned", word),
    ("blocks_scanned", word),
    ("rules_run", listOf (typed "string")),
    ("findings_total", word),
    ("findings_emitted", word),
    ("truncated_reason", nullable "string"),
    ("errors", listOf (reference "ToolError"))])

def toolErrorSchema : List (String × Json) :=
  described ("A rule that could not finish checking a file.\n\n" ++
    "Tool errors are not findings: they never affect the verdict, but the CLI\n" ++
    "exits non-zero when any are present.") (record ["rule", "message"] [
    ("rule", typed "string"),
    ("path", nullableReference "RepoPath"),
    ("message", typed "string")])

def toolSchema : List (String × Json) :=
  record ["name", "version"] [("name", typed "string"), ("version", typed "string")]

def schema : Json :=
  document "ReportEnvelope"
    (described "Report envelope: stable outer shape with tool-specific data embedded." (record
      ["schema", "tool", "started_at", "finished_at", "verdict", "findings", "data"] [
      ("schema", described "Versioned schema identifier for the envelope shape." (typed "string")),
      ("tool", reference "ToolMeta"),
      ("started_at", typed "string"),
      ("finished_at", typed "string"),
      ("verdict", reference "Verdict"),
      ("findings", listOf (reference "Finding")),
      ("data", reference "TfguardData")]))
    [("Finding", findingSchema),
      ("Location", locationSchema),
      ("RepoPath", pathSchema),
      ("Severity", described "Rule severities, mirroring the TFLint levels." (oneOf ["notice", "warning", "error"])),
      ("TfguardData", summarySchema),
      ("ToolError", toolErrorSchema),
      ("ToolMeta", toolSchema),
      ("Verdict", oneOf ["pass", "warn", "fail"])]

end DeclOrder.Report
