import DeclOrder.Json.Value
import DeclOrder.Text.Digits

/-! Reading JSON text. Of two fields with one key the last counts, and objects come out ascending
by key. -/
namespace DeclOrder.Json.Read
open Reader Text

def isSpace (c : Char) : Bool := c == ' ' || c == '\n' || c == '\t' || c == '\r'

def spaces : Reader Unit := skip (·.dropWhile isSpace)

def wholeDigits : Reader (List Char) := do
  let found ← digits
  match found with
  | '0' :: _ :: _ => failure
  | _ => return found

/-- Digits that fit 64 bits, and the power of ten they are short of the number that was read. -/
structure Significand where
  digits : Nat
  exponent : Int

def significandLimit : Nat := twoTo 64

def fits (digits : Nat) (c : Char) : Bool := 10 * digits + digitValue c < significandLimit

/-- Whole digits as far as they fit; the others only scale. The flag tells whether all of them fit. -/
def wholePart : List Char → Significand × Bool → Significand × Bool
  | [], found => found
  | c :: rest, (s, full) =>
      if full && fits s.digits c then wholePart rest (⟨10 * s.digits + digitValue c, s.exponent⟩, true)
      else wholePart rest (⟨s.digits, s.exponent + 1⟩, false)

def placesPart : List Char → Significand → Significand
  | [], s => s
  | c :: rest, s =>
      if fits s.digits c then placesPart rest ⟨10 * s.digits + digitValue c, s.exponent - 1⟩ else s

/-- A number scaled by a power of ten: each step, and no more than three are needed, rounds once.
Nothing if it is too large to be finite. -/
def scaled (negative : Bool) (s : Significand) : Option Decimal.Binary64 := do
  let start ← Decimal.Binary64.ofDecimal? negative s.digits 0
  let rec down (steps : Nat) (x : Decimal.Binary64) (exponent : Int) : Option Decimal.Binary64 := do
    if x.isZero then return x
    else if -308 ≤ exponent then x.div? (← Decimal.Binary64.ofDecimal? false 1 (-exponent))
    else match steps with
      | 0 => return .zero negative
      | steps + 1 => down steps (← x.div? (← Decimal.Binary64.ofDecimal? false 1 308)) (exponent + 308)
  if s.exponent < 0 then down 4 start s.exponent
  else if s.exponent ≤ 308 then start.mul? (← Decimal.Binary64.ofDecimal? false 1 s.exponent)
  else if start.isZero then return start else failure

/-- The largest exponent that is told apart; a larger one is out of range, or means zero. -/
def exponentLimit : Nat := twoTo 31

structure Power where
  negative : Bool
  size : Nat

def power : Reader Power := do
  if ← given (char 'e') then pure () else char 'E'
  let negative ← given (char '-')
  if !negative then
    let _ ← given (char '+')
  return ⟨negative, decimalValue (← digits)⟩

def float (negative : Bool) (s : Significand) (p : Power) : Option Decimal.Binary64 :=
  if exponentLimit ≤ p.size then
    if s.digits ≠ 0 ∧ !p.negative then none else some (.zero negative)
  else scaled negative ⟨s.digits, if p.negative then s.exponent - p.size else s.exponent + p.size⟩

def number : Reader Json := do
  let negative ← given (char '-')
  let whole ← wholeDigits
  let (s, exact) := wholePart whole (⟨0, 0⟩, true)
  let places ← if ← given (char '.') then some <$> digits else pure none
  let scale ← match ← left with
    | 'e' :: _ => some <$> power
    | 'E' :: _ => some <$> power
    | _ => pure none
  if exact && places.isNone && scale.isNone && (!negative || (s.digits ≠ 0 && s.digits ≤ twoTo 63)) then
    return .integer (if negative then -(s.digits : Int) else s.digits)
  else
    match float negative (placesPart (places.getD []) s) (scale.getD ⟨false, 0⟩) with
    | some x => return .float x
    | none => failure

/-- The character of a `u` escape. Two escapes that form a surrogate pair give one character; half a
pair gives none. -/
def unicodeEscape : Reader Char := do
  let unit ← hexOf 4
  if 0xD800 ≤ unit ∧ unit < 0xDC00 then
    word ['\\', 'u']
    let low ← hexOf 4
    if 0xDC00 ≤ low ∧ low < 0xE000 then
      return Char.ofNat (0x10000 + (unit - 0xD800) * 0x400 + (low - 0xDC00))
    else failure
  else if 0xDC00 ≤ unit ∧ unit < 0xE000 then failure
  else return Char.ofNat unit

def escape : Reader Char := fun text =>
  match text with
  | '"' :: rest => some ('"', rest)
  | '\\' :: rest => some ('\\', rest)
  | '/' :: rest => some ('/', rest)
  | 'b' :: rest => some ('\x08', rest)
  | 'f' :: rest => some ('\x0c', rest)
  | 'n' :: rest => some ('\n', rest)
  | 'r' :: rest => some ('\r', rest)
  | 't' :: rest => some ('\t', rest)
  | 'u' :: rest => unicodeEscape rest
  | _ => none

def stringChar : Reader Char := fun text =>
  match text with
  | '"' :: _ => none
  | '\\' :: rest => escape rest
  | c :: rest => if c.val < 32 then none else some (c, rest)
  | [] => none

def string : Reader String := do
  char '"'
  let found ← many stringChar
  char '"'
  return String.ofList found

def listed {α : Type} (item : Reader α) (close : Char) : Reader (List α) := do
  spaces
  if ← given (char close) then return []
  else
    let first ← item
    spaces
    let others ← many (do
      char ','
      spaces
      let value ← item
      spaces
      return value)
    char close
    return first :: others

def field (value : Reader Json) : Reader (String × Json) := do
  let key ← string
  spaces
  char ':'
  spaces
  return (key, ← value)

def atom : Reader Json := do
  match ← left with
  | '"' :: _ => return .string (← string)
  | 'n' :: _ =>
      word "null".toList
      return .null
  | 't' :: _ =>
      word "true".toList
      return .bool true
  | 'f' :: _ =>
      word "false".toList
      return .bool false
  | _ => number

def value : Nat → Reader Json
  | 0 => atom
  | depth + 1 => do
      match ← left with
      | '[' :: rest =>
          set rest
          return .array (← listed (value depth) ']')
      | '{' :: rest =>
          set rest
          return .object (sortFields (← listed (field (value depth)) '}'))
      | _ => atom

end Read

def depthLimit : Nat := 127

def parse? (text : String) (depth : Nat) : Option Json := do
  let (found, rest) ← (do Read.spaces; Read.value depth : Reader Json) text.toList
  if (rest.dropWhile Read.isSpace).isEmpty then return found else none

end DeclOrder.Json
