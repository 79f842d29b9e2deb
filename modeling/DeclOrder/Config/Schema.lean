import DeclOrder.Config.Basic
import DeclOrder.Json.Schema

/-! Config files as JSON, and the schema of them. What is not set, and an empty list of patterns, has no field. -/
namespace DeclOrder.Config

def field (name : String) : Option Json → List (String × Json)
  | some value => [(name, value)]
  | none => []

def encodePatterns (patterns : List String) : List (String × Json) :=
  field "ignore" (if patterns.isEmpty then none else some (.strings patterns))

def encodeRule (r : RuleConfig) : Json :=
  .object (field "enabled" (r.enabled.map .bool) ++ field "severity" (r.severity.map .string) ++
    encodePatterns r.ignore)

def encode (c : Config) : Json :=
  .object (field "schema" (c.schema.map .string) ++ field "profile" (c.profile.map .string) ++
    field "fail_on" (c.failOn.map .string) ++ field "max_findings" (c.maxFindings.map .ofNat) ++
    encodePatterns c.ignore ++
    [("rules", .object (c.rules.entries.map (fun (name, rule) => (name, encodeRule rule))))])

open Json.Schema

def ruleSchema : List (String × Json) :=
  closedRecord [
    ("enabled", described "Override the rule's default enablement." (nullable "boolean")),
    ("severity", described "Override the rule's severity: `notice`, `warning`, `error`." (nullable "string")),
    ("ignore", described "Globs of files this rule skips." (listOf (typed "string")))]

def rulesSchema : List (String × Json) :=
  described "Map of rule name -> config." (typed "object" ++
    [("additionalProperties", .object (reference "RuleConfig")), ("default", .object [])])

def schemaDocument : Json :=
  document "TfguardConfigV1"
    (described "`tfguard.toml` schema v1." (closedRecord [
      ("schema", described "Optional schema string for tooling (`tfguard.config.v1`)." (nullable "string")),
      ("profile", described ("`default` runs rules at their built-in defaults; `all` also turns on opt-in rules.")
        (nullable "string")),
      ("fail_on", described "When to fail the check: `error` (default) or `warning`." (nullable "string")),
      ("max_findings", described "How many findings to emit before truncating the list." nullableWord),
      ("ignore", described "Globs of files no rule looks at, relative to the module root."
        (listOf (typed "string"))),
      ("rules", rulesSchema)]))
    [("RuleConfig", ruleSchema)]

end DeclOrder.Config
