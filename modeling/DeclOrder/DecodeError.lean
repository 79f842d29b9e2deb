import DeclOrder.Text.Digits
import DeclOrder.Text.Quoted

/-! Why a value could not be decoded into typed data. -/
namespace DeclOrder

inductive Found where
  | null
  | bool (value : Bool)
  | integer (value : Int)
  | wide (value : Int)
  | float (spelled : String)
  | string (text : String)
  | sequence
  | map
  deriving DecidableEq, Repr

def Found.text : Found → String
  | .null => "null"
  | .bool b => "boolean `" ++ toString b ++ "`"
  | .integer n => "integer `" ++ toString n ++ "`"
  | .wide n => "integer `" ++ toString n ++ "` as " ++ if isSignedWord 128 n then "i128" else "u128"
  | .float spelled => "floating point `" ++ spelled ++ "`"
  | .string text => "string " ++ Text.quoted text
  | .sequence => "sequence"
  | .map => "map"

inductive DecodeError where
  | invalidType (found : Found) (expected : String)
  | invalidValue (found : Found) (expected : String)
  | invalidLength (length : Nat) (expected : String)
  | missingField (name : String)
  | unknownField (name : String) (known : List String)
  | unknownVariant (name : String) (known : List String)
  | integerOverflow
  | floatOverflow
  | malformedTime
  deriving DecidableEq, Repr

namespace DecodeError

def oneOf : List String → String
  | [] => "expected nothing"
  | [a] => "expected `" ++ a ++ "`"
  | [a, b] => "expected `" ++ a ++ "` or `" ++ b ++ "`"
  | names => "expected one of " ++ ", ".intercalate (names.map (fun n => "`" ++ n ++ "`"))

/-- Stands for the description of a text that is no timestamp. -/
def timeErrorText : String := "<time>"

def message : DecodeError → String
  | .invalidType found expected => "invalid type: " ++ found.text ++ ", expected " ++ expected
  | .invalidValue found expected => "invalid value: " ++ found.text ++ ", expected " ++ expected
  | .invalidLength length expected => "invalid length " ++ toString length ++ ", expected " ++ expected
  | .missingField name => "missing field `" ++ name ++ "`"
  | .unknownField name known => "unknown field `" ++ name ++ "`, " ++ oneOf known
  | .unknownVariant name known => "unknown variant `" ++ name ++ "`, " ++ oneOf known
  | .integerOverflow => "integer number overflowed"
  | .floatOverflow => "floating-point number overflowed"
  | .malformedTime => timeErrorText

end DecodeError
end DeclOrder
