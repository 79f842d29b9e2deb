import DeclOrder.Json.Value

/-! Writing JSON text, on one line or laid out with two spaces per level. -/
namespace DeclOrder.Json

def hexDigit (n : Nat) : Char := (Nat.digitChar n)

def escapeChar (c : Char) : List Char :=
  if c = '"' then ['\\', '"']
  else if c = '\\' then ['\\', '\\']
  else if c = '\n' then ['\\', 'n']
  else if c = '\r' then ['\\', 'r']
  else if c = '\t' then ['\\', 't']
  else if c = '\x08' then ['\\', 'b']
  else if c = '\x0c' then ['\\', 'f']
  else if c.val < 32 then ['\\', 'u', '0', '0', hexDigit (c.toNat / 16), hexDigit (c.toNat % 16)]
  else [c]

def stringText (text : String) : List Char := '"' :: text.toList.flatMap escapeChar ++ ['"']

def integerText (n : Int) : List Char :=
  if n < 0 then '-' :: Nat.toDigits 10 n.natAbs else Nat.toDigits 10 n.natAbs

def joined (between : List Char) : List (List Char) → List Char
  | [] => []
  | [text] => text
  | text :: rest => text ++ between ++ joined between rest

mutual

def compact : Json → List Char
  | .null => "null".toList
  | .bool true => "true".toList
  | .bool false => "false".toList
  | .integer n => integerText n
  | .float x => x.compact.toList
  | .string text => stringText text
  | .array items => '[' :: joined [','] (compactItems items) ++ [']']
  | .object fields => '{' :: joined [','] (compactFields fields) ++ ['}']

def compactItems : List Json → List (List Char)
  | [] => []
  | item :: rest => compact item :: compactItems rest

def compactFields : List (String × Json) → List (List Char)
  | [] => []
  | (key, value) :: rest => (stringText key ++ ':' :: compact value) :: compactFields rest

end

def newLine (level : Nat) : List Char := '\n' :: List.replicate (2 * level) ' '

def bracketed (opening closing : Char) (level : Nat) (items : List (List Char)) : List Char :=
  if items.isEmpty then [opening, closing]
  else opening :: newLine (level + 1) ++ joined (',' :: newLine (level + 1)) items ++ newLine level ++ [closing]

mutual

def laidOut (level : Nat) : Json → List Char
  | .null => "null".toList
  | .bool true => "true".toList
  | .bool false => "false".toList
  | .integer n => integerText n
  | .float x => x.compact.toList
  | .string text => stringText text
  | .array items => bracketed '[' ']' level (laidOutItems (level + 1) items)
  | .object fields => bracketed '{' '}' level (laidOutFields (level + 1) fields)

def laidOutItems (level : Nat) : List Json → List (List Char)
  | [] => []
  | item :: rest => laidOut level item :: laidOutItems level rest

def laidOutFields (level : Nat) : List (String × Json) → List (List Char)
  | [] => []
  | (key, value) :: rest => (stringText key ++ ':' :: ' ' :: laidOut level value) :: laidOutFields level rest

end

def pretty (value : Json) : String := String.ofList (laidOut 0 value)

end DeclOrder.Json
