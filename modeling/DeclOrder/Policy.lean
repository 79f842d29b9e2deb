import DeclOrder.Glob.Match
import DeclOrder.Path
import DeclOrder.Severity
import DeclOrder.Table

/-! The configuration that a run goes by: what each rule is set to, and which files are ignored. -/
namespace DeclOrder

/-- Settings of one rule. What is not set falls back to the rule's own defaults. -/
structure RuleOverride where
  enabled : Option Bool
  severity : Option Severity
  ignore : List String
  deriving DecidableEq, Repr

structure RulePolicy where
  enabled : Bool
  severity : Severity
  ignore : List String
  deriving DecidableEq, Repr

structure Policy where
  profile : String
  failOn : FailOn
  maxFindings : Nat
  enableAll : Bool
  ignore : List String
  rules : Table RuleOverride

namespace Policy

def default : Policy := ⟨"default", .error, 200, false, [], .empty⟩

def forRule (p : Policy) (name : String) (enabled : Bool) (severity : Severity) : RulePolicy :=
  match p.rules.find? name with
  | some o => ⟨o.enabled.getD (p.enableAll || enabled), o.severity.getD severity, o.ignore⟩
  | none => ⟨p.enableAll || enabled, severity, []⟩

end Policy

structure IgnoreSet where
  everywhere : List Glob.Pattern
  perRule : Table (List Glob.Pattern)

namespace IgnoreSet

def none : IgnoreSet := ⟨[], .empty⟩

def patterns : List String → Except Glob.Error (List Glob.Pattern)
  | [] => .ok []
  | text :: rest => do
      let first ← Glob.Pattern.ofString text
      return first :: (← patterns rest)

def rulePatterns : List (String × RuleOverride) → Except Glob.Error (Table (List Glob.Pattern))
  | [] => .ok .empty
  | (name, changes) :: rest => do
      let found ← patterns changes.ignore
      return (← rulePatterns rest).insert name found

/-- The patterns of the rules are read first, in the order of the rules' names. -/
def ofPolicy (p : Policy) : Except Glob.Error IgnoreSet := do
  let perRule ← rulePatterns p.rules.entries
  return ⟨← patterns p.ignore, perRule⟩

def ignores (s : IgnoreSet) (rule : String) (path : RepoPath) : Bool :=
  s.everywhere.any (·.matches path.text) ||
    ((s.perRule.find? rule).getD []).any (·.matches path.text)

end IgnoreSet
end DeclOrder
