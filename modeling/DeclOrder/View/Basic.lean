import DeclOrder.Report.Basic

/-! What the renderings show of a report. -/
namespace DeclOrder.View

structure Place where
  path : String
  line : Option Nat
  column : Option Nat
  deriving DecidableEq, Repr

structure Item where
  severity : Severity
  checkId : Option String
  code : String
  /-- The first line is a summary; further lines are configuration. -/
  message : String
  place : Option Place
  help : Option String
  url : Option String
  deriving DecidableEq, Repr

structure ErrorItem where
  rule : String
  path : Option String
  message : String
  deriving DecidableEq, Repr

structure Sheet where
  verdict : Verdict
  items : List Item
  emitted : Nat
  total : Nat
  truncatedReason : Option String
  errors : List ErrorItem
  deriving DecidableEq, Repr

def itemOf (f : Finding) : Item :=
  ⟨f.severity, some f.checkId, f.code, f.message, f.location.map (fun l => ⟨l.path.text, l.line, l.column⟩), f.help, f.url⟩

def ofReport (r : Report) : Sheet :=
  ⟨r.verdict, r.findings.map itemOf, r.summary.findingsEmitted, r.summary.findingsTotal, r.summary.truncatedReason,
    r.summary.errors.map (fun e => ⟨e.rule, e.path.map RepoPath.text, e.message⟩)⟩

end DeclOrder.View
