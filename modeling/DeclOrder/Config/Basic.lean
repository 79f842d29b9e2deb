import DeclOrder.Json.Value
import DeclOrder.Table

/-! Config files, as written: names of profiles, rules and severities stand unchecked. -/
namespace DeclOrder

structure RuleConfig where
  enabled : Option Bool
  severity : Option String
  ignore : List String
  deriving DecidableEq, Repr

structure Config where
  schema : Option String
  profile : Option String
  failOn : Option String
  maxFindings : Option Nat
  ignore : List String
  rules : Table RuleConfig

structure Overrides where
  profile : Option String
  maxFindings : Option Nat
  deriving DecidableEq, Repr

def RuleConfig.empty : RuleConfig := ⟨none, none, []⟩

namespace Config

def empty : Config := ⟨none, none, none, none, [], .empty⟩

def fileName : String := "tfguard.toml"

end Config

def Overrides.none : Overrides := ⟨.none, .none⟩

end DeclOrder
