/-! Severities of findings, verdicts on runs, and when warnings fail a run. -/
namespace DeclOrder

inductive Severity where
  | notice | warning | error
  deriving DecidableEq, Repr

namespace Severity

def text : Severity → String
  | .notice => "notice"
  | .warning => "warning"
  | .error => "error"

def rank : Severity → Nat
  | .error => 0
  | .warning => 1
  | .notice => 2

def ofText? : String → Option Severity
  | "notice" => some .notice
  | "warning" => some .warning
  | "error" => some .error
  | _ => none

end Severity

inductive Verdict where
  | pass | warn | fail
  deriving DecidableEq, Repr

namespace Verdict

def text : Verdict → String
  | .pass => "pass"
  | .warn => "warn"
  | .fail => "fail"

def ofText? : String → Option Verdict
  | "pass" => some .pass
  | "warn" => some .warn
  | "fail" => some .fail
  | _ => none

def exitCode : Verdict → Nat
  | .pass => 0
  | .warn => 0
  | .fail => 2

end Verdict

inductive FailOn where
  | error | warning
  deriving DecidableEq, Repr

def FailOn.text : FailOn → String
  | .error => "error"
  | .warning => "warning"

end DeclOrder
