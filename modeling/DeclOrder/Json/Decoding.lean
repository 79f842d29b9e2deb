import DeclOrder.DecodeError
import DeclOrder.Json.Value

/-! Decoding JSON values into typed data. A record is an object, or an array of its fields in their
order. Fields are looked at in the order in which they stand, and only then missing ones count. -/
namespace DeclOrder.Json

def found : Json → Found
  | .null => .null
  | .bool b => .bool b
  | .integer n => .integer n
  | .float x => .float x.compact
  | .string text => .string text
  | .array _ => .sequence
  | .object _ => .map

abbrev Decoder (α : Type) := Json → Except DecodeError α

namespace Decoder

def mismatch {α : Type} (value : Json) (expected : String) : Except DecodeError α :=
  .error (.invalidType value.found expected)

def string : Decoder String
  | .string text => .ok text
  | value => mismatch value "a string"

def word : Decoder Nat
  | .integer n =>
      if isWord 32 n then .ok n.toNat else .error (.invalidValue (.integer n) "u32")
  | value => mismatch value "u32"

def any : Decoder Json := .ok

def nullable {α : Type} (decode : Decoder α) : Decoder (Option α)
  | .null => .ok none
  | value => (decode value).map some

def list {α : Type} (decode : Decoder α) : Decoder (List α)
  | .array items => items.mapM decode
  | value => mismatch value "a sequence"

/-- One of some names: a string, or an object with the name as its only key and null behind it. -/
def variant {α : Type} (known : List String) (ofText? : String → Option α) : Decoder α
  | .string text => named text
  | .object [(text, .null)] => named text
  | .object [(text, value)] => do
      let _ ← named text
      mismatch value "unit"
  | .object _ => .error (.invalidValue .map "map with a single key")
  | value => mismatch value "string or map"
where
  named (text : String) : Except DecodeError α :=
    match ofText? text with
    | some found => .ok found
    | none => .error (.unknownVariant text known)

inductive Absence where
  | required
  /-- Not set, but an array has to hold it. -/
  | optional
  | defaulted
  deriving DecidableEq, Repr

structure FieldRule where
  name : String
  absence : Absence
  check : Json → Except DecodeError Unit

def rule {α : Type} (name : String) (absence : Absence) (decode : Decoder α) : FieldRule :=
  ⟨name, absence, fun value => (decode value).map (fun _ => ())⟩

structure Fields where
  present : List (String × Json)

def checkAll (rules : List FieldRule) : List (String × Json) → Except DecodeError (List (String × Json))
  | [] => .ok []
  | (name, value) :: rest =>
      match rules.find? (·.name == name) with
      | none => checkAll rules rest
      | some r => do
          r.check value
          return (name, value) :: (← checkAll rules rest)

def lengthText (record : String) (count : Nat) : String :=
  record ++ " with " ++ toString count ++ " element" ++ if count = 1 then "" else "s"

def fields (record : String) (rules : List FieldRule) : Json → Except DecodeError Fields
  | .object found => do
      let present ← checkAll rules found
      match rules.find? (fun r => r.absence == .required && (present.lookup r.name).isNone) with
      | some missing => .error (.missingField missing.name)
      | none => return ⟨present⟩
  | .array items => do
      let present ← checkAll rules ((rules.map FieldRule.name).zip items)
      match (rules.drop items.length).findIdx? (·.absence != .defaulted) with
      | some skipped => .error (.invalidLength (items.length + skipped) (lengthText record rules.length))
      | none =>
          if rules.length < items.length then .error (.invalidLength items.length "fewer elements in array")
          else return ⟨present⟩
  | value => mismatch value record

def Fields.get {α : Type} (f : Fields) (name : String) (decode : Decoder α) : Except DecodeError α :=
  match f.present.lookup name with
  | some value => decode value
  | none => .error (.missingField name)

def Fields.getD {α : Type} (f : Fields) (name : String) (fallback : α) (decode : Decoder α) : Except DecodeError α :=
  match f.present.lookup name with
  | some value => decode value
  | none => .ok fallback

def Fields.get? {α : Type} (f : Fields) (name : String) (decode : Decoder α) : Except DecodeError (Option α) :=
  f.getD name none (nullable decode)

end Decoder
end DeclOrder.Json
