import DeclOrder.Policy
import DeclOrder.Rule.OutputOrder

/-! Running rules over a module: findings in order, the verdict and the summary. -/
namespace DeclOrder

structure DomainReport where
  verdict : Verdict
  findings : List Finding
  summary : Summary
  counts : SeverityCounts

namespace Evaluation

structure Ran where
  rule : Rule
  severity : Severity
  outcome : Outcome

def settled (policy : Policy) (rule : Rule) : RulePolicy := policy.forRule rule.name rule.enabled rule.severity

def runRules (m : Module) (policy : Policy) (ignore : IgnoreSet) : List Rule → Option (List Ran)
  | [] => some []
  | rule :: rest =>
      if (settled policy rule).enabled then do
        let outcome ← rule.check m ignore.ignores
        return ⟨rule, (settled policy rule).severity, outcome⟩ :: (← runRules m policy ignore rest)
      else runRules m policy ignore rest

/-- Severities by rule name. Of two rules with one name the last one that runs decides. -/
def severities (ran : List Ran) : Table Severity := .ofList (ran.map (fun r => (r.rule.name, r.severity)))

/-- The severity of what is reported under a name. It is a notice if no rule of that name runs. -/
def level (levels : Table Severity) (rule : String) : Severity := (levels.find? rule).getD .notice

def findingOf (levels : Table Severity) (e : Emitted) : Finding where
  severity := level levels e.rule
  checkId := e.rule
  code := e.issue.code
  message := e.issue.message
  location := some e.issue.range.location
  help := e.issue.help
  url := some e.link
  fingerprint := some (Fingerprint.ofBlock e.rule e.issue.code e.issue.range.path.text e.issue.subject)
  data := e.issue.data

def emissions (ran : List Ran) : List Emitted := ran.flatMap (·.outcome.issues)

def toolErrorsOf (r : Ran) : List ToolError :=
  r.outcome.errors.map (fun e => ⟨r.rule.name, some e.path, e.detail⟩)

def unplacedPath : String := "~"

def unplacedLine : Nat := twoTo 32 - 1

def sortPath (f : Finding) : String := f.location.elim unplacedPath (·.path.text)

def sortLine (f : Finding) : Nat := (f.location.bind (·.line)).getD unplacedLine

def compareFindings (a b : Finding) : Ordering :=
  (compare a.severity.rank b.severity.rank).then <| (compare (sortPath a) (sortPath b)).then <|
    (compare (sortLine a) (sortLine b)).then <| (compare a.checkId b.checkId).then <|
      (compare a.code b.code).then (compare a.message b.message)

def sortFindings (findings : List Finding) : List Finding :=
  findings.mergeSort (fun a b => (compareFindings a b).isLE)

def verdictOf (failOn : FailOn) (findings : List Finding) : Verdict :=
  if findings.any (·.severity == .error) then .fail
  else if findings.any (·.severity == .warning) then
    match failOn with
    | .warning => .fail
    | .error => .warn
  else .pass

def truncationReason (limit : Nat) : String := "findings truncated to max_findings=" ++ toString limit

def ignoreError (e : Glob.Error) : ToolError := ⟨"ignore", none, "invalid ignore pattern: " ++ e.message⟩

def ignoreSet (policy : Policy) : IgnoreSet × List ToolError :=
  match IgnoreSet.ofPolicy policy with
  | .ok found => (found, [])
  | .error e => (.none, [ignoreError e])

/-- The report on rules that ran. The verdict and the counts are those of the findings that the limit
keeps. -/
def reportOf (m : Module) (policy : Policy) (ignoreErrors : List ToolError) (ran : List Ran) : DomainReport :=
  let all := sortFindings ((emissions ran).map (findingOf (severities ran)))
  let kept := all.take policy.maxFindings
  { verdict := verdictOf policy.failOn kept
    findings := kept
    summary :=
      { profile := policy.profile
        filesScanned := m.fileList.length
        blocksScanned := m.blocksScanned
        rulesRun := ran.map (·.rule.name)
        findingsTotal := all.length
        findingsEmitted := kept.length
        truncatedReason := if policy.maxFindings < all.length then some (truncationReason policy.maxFindings) else none
        errors := ignoreErrors ++ ran.flatMap toolErrorsOf }
    counts := .ofFindings kept }

def evaluate (m : Module) (policy : Policy) (rules : List Rule) : Option DomainReport := do
  let (ignore, ignoreErrors) := ignoreSet policy
  return reportOf m policy ignoreErrors (← runRules m policy ignore rules)

end Evaluation
end DeclOrder
