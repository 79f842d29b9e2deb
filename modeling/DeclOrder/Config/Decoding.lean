import DeclOrder.Config.Basic
import DeclOrder.Toml.Document

/-! Reading config files. Fields are looked at ascending by name, and one that is not known is an
error. A rule may also be an array of its fields in their order. -/
namespace DeclOrder.Config.Decode

abbrev Decoder (α : Type) := Toml.Value → Except DecodeError α

def mismatch {α : Type} (value : Toml.Value) (expected : String) : Except DecodeError α := do
  .error (.invalidType (← value.found) expected)

def string : Decoder String
  | .string text => .ok text
  | value => mismatch value "a string"

def bool : Decoder Bool
  | .bool b => .ok b
  | value => mismatch value "a boolean"

def word : Decoder Nat
  | .integer n =>
      if isWord 32 n then .ok n.toNat
      else if isSignedWord 64 n || isWord 64 n then .error (.invalidValue (.integer n) "u32")
      else mismatch (.integer n) "u32"
  | value => mismatch value "u32"

def strings : Decoder (List String)
  | .array items => items.mapM string
  | value => mismatch value "a sequence"

def ruleFields : List String := ["enabled", "severity", "ignore"]

def setRuleField (r : RuleConfig) (name : String) (value : Toml.Value) : Except DecodeError RuleConfig :=
  match name with
  | "enabled" => do return { r with enabled := some (← bool value) }
  | "severity" => do return { r with severity := some (← string value) }
  | "ignore" => do return { r with ignore := ← strings value }
  | _ => .error (.unknownField name ruleFields)

/-- The name of the one field of a date. -/
def dateField : String := "$__toml_private_datetime"

def ruleEntries (r : RuleConfig) : List (String × Toml.Value) → Except DecodeError RuleConfig
  | [] => .ok r
  | (name, value) :: rest => do ruleEntries (← setRuleField r name value) rest

def rule : Decoder RuleConfig
  | .table entries => ruleEntries .empty entries
  | .array items => ruleEntries .empty (ruleFields.zip items)
  | .dateTime text => ruleEntries .empty [(dateField, .string text)]
  | value => mismatch value "struct RuleConfig"

def rulesOf (t : Table RuleConfig) : List (String × Toml.Value) → Except DecodeError (Table RuleConfig)
  | [] => .ok t
  | (name, value) :: rest => do rulesOf (t.insert name (← rule value)) rest

def rules : Decoder (Table RuleConfig)
  | .table entries => rulesOf .empty entries
  | .dateTime text => rulesOf .empty [(dateField, .string text)]
  | value => mismatch value "a map"

def fields : List String := ["schema", "profile", "fail_on", "max_findings", "ignore", "rules"]

def setField (c : Config) (name : String) (value : Toml.Value) : Except DecodeError Config :=
  match name with
  | "schema" => do return { c with schema := some (← string value) }
  | "profile" => do return { c with profile := some (← string value) }
  | "fail_on" => do return { c with failOn := some (← string value) }
  | "max_findings" => do return { c with maxFindings := some (← word value) }
  | "ignore" => do return { c with ignore := ← strings value }
  | "rules" => do return { c with rules := ← rules value }
  | _ => .error (.unknownField name fields)

def config (c : Config) : List (String × Toml.Value) → Except DecodeError Config
  | [] => .ok c
  | (name, value) :: rest => do config (← setField c name value) rest

end DeclOrder.Config.Decode

namespace DeclOrder.Config

inductive ParseError where
  | malformed
  | mismatch (cause : DecodeError)
  deriving DecidableEq, Repr

def ParseError.message : ParseError → String
  | .malformed => Toml.syntaxErrorText
  | .mismatch cause => cause.message

def parse (text : String) : Except ParseError Config :=
  match Toml.parse? text with
  | none => .error .malformed
  | some entries => (Decode.config .empty entries).mapError .mismatch

end DeclOrder.Config
