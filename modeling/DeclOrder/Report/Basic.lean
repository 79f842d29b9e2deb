import DeclOrder.Evaluation
import DeclOrder.Timestamp

/-! Reports of runs, and those for runs that could not start. -/
namespace DeclOrder

structure ToolMeta where
  name : String
  version : String
  deriving DecidableEq, Repr

structure Report where
  schemaId : String
  tool : ToolMeta
  startedAt : Timestamp
  finishedAt : Timestamp
  verdict : Verdict
  findings : List Finding
  summary : Summary

namespace Report

def schemaV1 : String := "tfguard.report.v1"

def toolMeta : ToolMeta := ⟨"tfguard", "0.1.0"⟩

def hasToolErrors (r : Report) : Bool := !r.summary.errors.isEmpty

def narrowed (s : Summary) : Summary :=
  { s with
    filesScanned := s.filesScanned % twoTo 32
    blocksScanned := s.blocksScanned % twoTo 32
    findingsTotal := s.findingsTotal % twoTo 32
    findingsEmitted := s.findingsEmitted % twoTo 32 }

def ofDomain (startedAt finishedAt : Timestamp) (r : DomainReport) : Report :=
  ⟨schemaV1, toolMeta, startedAt, finishedAt, r.verdict, r.findings, narrowed r.summary⟩

def runtimeCheck : String := "tool.runtime"

def runtimeCode : String := "runtime_error"

def runtimeFinding (message : String) : Finding where
  severity := .error
  checkId := runtimeCheck
  code := runtimeCode
  message := message
  location := none
  help := some "Fix the tool error and re-run tfguard."
  url := none
  fingerprint := none
  data := .null

def runtimeError (now : Timestamp) (message : String) : Report :=
  ⟨schemaV1, toolMeta, now, now, .fail, [runtimeFinding message], ⟨"unknown", 0, 0, [], 1, 1, none, []⟩⟩

end Report
end DeclOrder
