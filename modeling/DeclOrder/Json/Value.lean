import DeclOrder.Decimal.Shortest

/-! JSON values. A number is an integer as long as it was written as one and fits 64 bits; fields of
an object stand in the order in which they are written out. -/
namespace DeclOrder

inductive Json where
  | null
  | bool (value : Bool)
  | integer (value : Int)
  | float (value : Decimal.Binary64)
  | string (text : String)
  | array (items : List Json)
  | object (fields : List (String × Json))

namespace Json

def insertField (key : String) (value : Json) : List (String × Json) → List (String × Json)
  | [] => [(key, value)]
  | (k, v) :: rest =>
      if key < k then (key, value) :: (k, v) :: rest
      else if k = key then (key, value) :: rest
      else (k, v) :: insertField key value rest

def sortFields (fields : List (String × Json)) : List (String × Json) :=
  fields.foldl (fun sorted (k, v) => insertField k v sorted) []

def ofNat (n : Nat) : Json := .integer n

def strings (texts : List String) : Json := .array (texts.map .string)

def field? (key : String) : Json → Option Json
  | .object fields => fields.lookup key
  | _ => none

def isNull : Json → Bool
  | .null => true
  | _ => false

end Json
end DeclOrder
