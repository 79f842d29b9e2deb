import DeclOrder.DecodeError
import DeclOrder.Decimal.Shortest

/-! TOML values. An integer may have any size and a date or time is kept as a text; the entries of a
table ascend by key. -/
namespace DeclOrder.Toml

inductive Real where
  | finite (value : Decimal.Binary64)
  | infinite (negative : Bool)
  | notNumber
  /-- Written with digits, but too large to be finite. -/
  | overflow
  deriving DecidableEq, Repr

inductive Value where
  | string (text : String)
  | integer (value : Int)
  | real (value : Real)
  | bool (value : Bool)
  | dateTime (text : String)
  | array (items : List Value)
  | table (entries : List (String × Value))

/-- The integers that some type of at most 128 bits holds. -/
def isCounted (n : Int) : Bool := isSignedWord 128 n || isWord 128 n

def foundInteger (n : Int) : Except DecodeError Found :=
  if isSignedWord 64 n || isWord 64 n then .ok (.integer n)
  else if isCounted n then .ok (.wide n)
  else .error .integerOverflow

def foundReal : Real → Except DecodeError Found
  | .finite x => .ok (.float x.pointed)
  | .infinite negative => .ok (.float (if negative then "-inf" else "inf"))
  | .notNumber => .ok (.float "NaN")
  | .overflow => .error .floatOverflow

/-- What a value is, for a message about one that does not fit. A date counts as a map. -/
def Value.found : Value → Except DecodeError Found
  | .string text => .ok (.string text)
  | .integer n => foundInteger n
  | .real x => foundReal x
  | .bool b => .ok (.bool b)
  | .dateTime _ => .ok .map
  | .array _ => .ok .sequence
  | .table _ => .ok .map

end DeclOrder.Toml
