import DeclOrder.Config.Basic
import DeclOrder.Policy
import DeclOrder.Rule.OutputOrder

/-! From a config file to the policy that a run goes by. -/
namespace DeclOrder

/-- The policy of a profile. The profile `all` also turns on the rules that are off by default. -/
def Policy.ofProfile? : String → Option Policy
  | "default" => some .default
  | "all" => some { Policy.default with profile := "all", enableAll := true }
  | _ => none

namespace Config

inductive ResolveError where
  | unknownProfile (name : String)
  | unknownFailOn (name : String)
  | invalidGlob (list : String) (cause : Glob.Error)
  | unknownRule (name : String)
  | invalidSeverity (rule severity : String)
  deriving DecidableEq, Repr

def ResolveError.message : ResolveError → String
  | .unknownProfile name => "unknown profile: " ++ name ++ " (expected default|all)"
  | .unknownFailOn name => "unknown fail_on: " ++ name ++ " (expected error|warning)"
  | .invalidGlob list cause => "invalid glob in " ++ list ++ ": " ++ cause.pattern ++ ": " ++ cause.message
  | .unknownRule name =>
      "unknown rule in config: " ++ name ++ " (known: " ++ ", ".intercalate allRuleNames ++ ")"
  | .invalidSeverity rule severity =>
      "invalid severity for " ++ rule ++ ": unknown severity: " ++ severity ++ " (expected notice|warning|error)"

def severity? : String → Option Severity
  | "warn" => some .warning
  | name => Severity.ofText? name

def failOn? : String → Option FailOn
  | "error" => some .error
  | "warning" => some .warning
  | "warn" => some .warning
  | _ => none

def checkPatterns (list : String) (patterns : List String) : Except ResolveError Unit := do
  let _ ← (IgnoreSet.patterns patterns).mapError (.invalidGlob list)

def resolveSeverity (rule : String) : Option String → Except ResolveError (Option Severity)
  | none => .ok none
  | some name => match severity? name with
      | some found => .ok (some found)
      | none => .error (.invalidSeverity rule name)

def resolveRule (name : String) (r : RuleConfig) : Except ResolveError RuleOverride := do
  if name ∉ allRuleNames then .error (.unknownRule name)
  let severity ← resolveSeverity name r.severity
  checkPatterns ("rules." ++ name ++ ".ignore") r.ignore
  return ⟨r.enabled, severity, r.ignore⟩

def resolveRules : List (String × RuleConfig) → Except ResolveError (List (String × RuleOverride))
  | [] => .ok []
  | (name, r) :: rest => do
      let first ← resolveRule name r
      return (name, first) :: (← resolveRules rest)

def resolveProfile (name : String) : Except ResolveError Policy :=
  match Policy.ofProfile? name with
  | some policy => .ok policy
  | none => .error (.unknownProfile name)

def resolveFailOn (fallback : FailOn) : Option String → Except ResolveError FailOn
  | none => .ok fallback
  | some name => match failOn? name with
      | some found => .ok found
      | none => .error (.unknownFailOn name)

def resolve (c : Config) (o : Overrides) : Except ResolveError Policy := do
  let policy ← resolveProfile ((o.profile <|> c.profile).getD "default")
  let failOn ← resolveFailOn policy.failOn c.failOn
  checkPatterns "ignore" c.ignore
  let rules ← resolveRules c.rules.entries
  return { policy with
    failOn := failOn
    maxFindings := (o.maxFindings <|> c.maxFindings).getD policy.maxFindings
    ignore := c.ignore
    rules := .ofList rules }

end Config
end DeclOrder
