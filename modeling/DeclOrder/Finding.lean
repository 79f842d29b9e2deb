import DeclOrder.Digest.Sha256
import DeclOrder.Json.Value
import DeclOrder.Position
import DeclOrder.Severity

/-! Findings, errors of rules on single files, and the summary of a run. -/
namespace DeclOrder

structure Location where
  path : RepoPath
  line : Option Nat
  column : Option Nat
  endLine : Option Nat
  endColumn : Option Nat
  deriving DecidableEq, Repr

def SourceRange.location (r : SourceRange) : Location :=
  ⟨r.path, some r.start.line, some r.start.column, some r.stop.line, some r.stop.column⟩

structure Finding where
  severity : Severity
  checkId : String
  code : String
  message : String
  location : Option Location
  help : Option String
  url : Option String
  fingerprint : Option String
  data : Json

/-- A rule that could not finish a file. It is no finding and does not touch the verdict. -/
structure ToolError where
  rule : String
  path : Option RepoPath
  message : String
  deriving DecidableEq, Repr

structure Summary where
  profile : String
  filesScanned : Nat
  blocksScanned : Nat
  rulesRun : List String
  findingsTotal : Nat
  findingsEmitted : Nat
  truncatedReason : Option String
  errors : List ToolError
  deriving DecidableEq, Repr

structure SeverityCounts where
  notice : Nat
  warning : Nat
  error : Nat
  deriving DecidableEq, Repr

def SeverityCounts.ofFindings (findings : List Finding) : SeverityCounts :=
  let count (s : Severity) := findings.countP (·.severity == s)
  ⟨count .notice, count .warning, count .error⟩

namespace Fingerprint

def identity (rule code path block : String) : String :=
  rule ++ "|" ++ code ++ "|" ++ path ++ "|" ++ block

def ofBlock (rule code path block : String) : String :=
  Digest.sha256 ((identity rule code path block).toList.flatMap String.utf8EncodeChar)

end Fingerprint
end DeclOrder
