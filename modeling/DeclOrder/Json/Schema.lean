import DeclOrder.Json.Value

/-! Building blocks of JSON schemas. -/
namespace DeclOrder.Json.Schema

def dialect : String := "https://json-schema.org/draft/2020-12/schema"

def typed (name : String) : List (String × Json) := [("type", .string name)]

def nullable (name : String) : List (String × Json) := [("type", .strings [name, "null"])]

def wordBounds : List (String × Json) := [("format", .string "uint32"), ("minimum", .ofNat 0)]

def word : List (String × Json) := typed "integer" ++ wordBounds

def nullableWord : List (String × Json) := nullable "integer" ++ wordBounds

def reference (name : String) : List (String × Json) := [("$ref", .string ("#/$defs/" ++ name))]

def nullableReference (name : String) : List (String × Json) :=
  [("anyOf", .array [.object (reference name), .object (typed "null")])]

def listOf (item : List (String × Json)) : List (String × Json) :=
  typed "array" ++ [("items", .object item)]

def described (text : String) (schema : List (String × Json)) : List (String × Json) :=
  ("description", .string text) :: schema

def properties (fields : List (String × List (String × Json))) : List (String × Json) :=
  [("properties", .object (fields.map (fun (name, schema) => (name, .object schema))))]

def record (required : List String) (fields : List (String × List (String × Json))) : List (String × Json) :=
  typed "object" ++ properties fields ++ [("required", .strings required)]

/-- A record with no other fields than those given, all of which may be left out. -/
def closedRecord (fields : List (String × List (String × Json))) : List (String × Json) :=
  typed "object" ++ properties fields ++ [("additionalProperties", .bool false)]

def oneOf (names : List String) : List (String × Json) := typed "string" ++ [("enum", .strings names)]

def document (title : String) (schema : List (String × Json)) (definitions : List (String × List (String × Json))) :
    Json :=
  .object ([("$schema", .string dialect), ("title", .string title)] ++ schema ++
    [("$defs", .object (definitions.map (fun (name, found) => (name, .object found))))])

end DeclOrder.Json.Schema
