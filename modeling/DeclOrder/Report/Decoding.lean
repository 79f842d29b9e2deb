import DeclOrder.Json.Decoding
import DeclOrder.Json.Reading
import DeclOrder.Report.Basic

/-! Reading reports back from JSON. Unknown fields do not matter. -/
namespace DeclOrder.Report.Decode
open Json (Decoder)
open Json.Decoder

def severity : Decoder Severity := variant ["notice", "warning", "error"] Severity.ofText?

def verdict : Decoder Verdict := variant ["pass", "warn", "fail"] Verdict.ofText?

def path : Decoder RepoPath := fun value => (string value).map RepoPath.mk

def timestamp : Decoder Timestamp
  | .string text => match Timestamp.parse? text with
      | some t => .ok t
      | none => .error .malformedTime
  | value => mismatch value "an RFC3339-formatted `OffsetDateTime`"

def location : Decoder Location := fun value => do
  let f ← fields "struct Location" [rule "path" .required path, rule "line" .optional (nullable word),
    rule "col" .optional (nullable word), rule "end_line" .defaulted (nullable word),
    rule "end_col" .defaulted (nullable word)] value
  return ⟨← f.get "path" path, ← f.get? "line" word, ← f.get? "col" word, ← f.get? "end_line" word,
    ← f.get? "end_col" word⟩

def finding : Decoder Finding := fun value => do
  let f ← fields "struct Finding" [rule "severity" .required severity, rule "check_id" .required string,
    rule "code" .required string, rule "message" .required string, rule "location" .optional (nullable location),
    rule "help" .optional (nullable string), rule "url" .optional (nullable string),
    rule "fingerprint" .optional (nullable string), rule "data" .defaulted any] value
  return ⟨← f.get "severity" severity, ← f.get "check_id" string, ← f.get "code" string, ← f.get "message" string,
    ← f.get? "location" location, ← f.get? "help" string, ← f.get? "url" string, ← f.get? "fingerprint" string,
    ← f.getD "data" .null any⟩

def toolError : Decoder ToolError := fun value => do
  let f ← fields "struct ToolError" [rule "rule" .required string, rule "path" .optional (nullable path),
    rule "message" .required string] value
  return ⟨← f.get "rule" string, ← f.get? "path" path, ← f.get "message" string⟩

def summary : Decoder Summary := fun value => do
  let f ← fields "struct TfguardData" [rule "profile" .required string, rule "files_scanned" .required word,
    rule "blocks_scanned" .required word, rule "rules_run" .required (list string),
    rule "findings_total" .required word, rule "findings_emitted" .required word,
    rule "truncated_reason" .optional (nullable string), rule "errors" .defaulted (list toolError)] value
  return ⟨← f.get "profile" string, ← f.get "files_scanned" word, ← f.get "blocks_scanned" word,
    ← f.get "rules_run" (list string), ← f.get "findings_total" word, ← f.get "findings_emitted" word,
    ← f.get? "truncated_reason" string, ← f.getD "errors" [] (list toolError)⟩

def tool : Decoder ToolMeta := fun value => do
  let f ← fields "struct ToolMeta" [rule "name" .required string, rule "version" .required string] value
  return ⟨← f.get "name" string, ← f.get "version" string⟩

def report : Decoder Report := fun value => do
  let f ← fields "struct ReportEnvelope" [rule "schema" .required string, rule "tool" .required tool,
    rule "started_at" .required timestamp, rule "finished_at" .required timestamp,
    rule "verdict" .required verdict, rule "findings" .required (list finding),
    rule "data" .required summary] value
  return ⟨← f.get "schema" string, ← f.get "tool" tool, ← f.get "started_at" timestamp,
    ← f.get "finished_at" timestamp, ← f.get "verdict" verdict, ← f.get "findings" (list finding),
    ← f.get "data" summary⟩

end DeclOrder.Report.Decode

namespace DeclOrder.Report

inductive ParseError where
  | malformed
  | unknownSchema (name : String)
  | mismatch (cause : DecodeError)
  deriving DecidableEq, Repr

/-- Stands for the description of a text that is not JSON. -/
def jsonErrorText : String := "<json>"

def ParseError.message : ParseError → String
  | .malformed => "parse report json: " ++ jsonErrorText
  | .unknownSchema name => "unknown report schema: " ++ name ++ " (expected " ++ schemaV1 ++ ")"
  | .mismatch cause => "parse tfguard report: " ++ cause.message

def ParseError.chain : ParseError → List String
  | .malformed => ["parse report json", jsonErrorText]
  | .mismatch cause => ["parse tfguard report", cause.message]
  | e => [e.message]

def schemaName (value : Json) : String :=
  match value.field? "schema" with
  | some (.string name) => name
  | _ => ""

def parse (text : String) : Except ParseError Report :=
  match Json.parse? text Json.depthLimit with
  | none => .error .malformed
  | some value =>
      if schemaName value ≠ schemaV1 then .error (.unknownSchema (schemaName value))
      else (Decode.report value).mapError .mismatch

end DeclOrder.Report
