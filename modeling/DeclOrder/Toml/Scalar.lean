import DeclOrder.Text.Digits
import DeclOrder.Timestamp
import DeclOrder.Toml.Value

/-! Strings, numbers, dates and keys of TOML. -/
namespace DeclOrder.Toml

def isGap (c : Char) : Bool := c == ' ' || c == '\t'

/-- Whether a character may stand in a comment or a string as it is. Control characters may not,
except for the tab. -/
def isPlain (c : Char) : Bool := c == '\t' || (32 ≤ c.val && c.val != 127)

def isBare (c : Char) : Bool := c.isAlphanum || c == '_' || c == '-'

namespace Read
open Reader

def gap : Reader Unit := skip (·.dropWhile isGap)

def lineBreak : Reader (List Char) := fun text =>
  match text with
  | '\n' :: rest => some (['\n'], rest)
  | '\r' :: '\n' :: rest => some (['\r', '\n'], rest)
  | _ => none

def comment : Reader Unit := do
  char '#'
  skip (·.dropWhile isPlain)

def trivia : Reader Unit := do
  let _ ← many (do
    match ← left with
    | '#' :: _ => comment
    | c :: rest => if isGap c then set rest else discard lineBreak
    | [] => failure)

/-! Strings. -/

def escape : Reader Char := fun text =>
  match text with
  | 'b' :: rest => some ('\x08', rest)
  | 't' :: rest => some ('\t', rest)
  | 'n' :: rest => some ('\n', rest)
  | 'f' :: rest => some ('\x0c', rest)
  | 'r' :: rest => some ('\r', rest)
  | 'e' :: rest => some ('\x1b', rest)
  | '"' :: rest => some ('"', rest)
  | '\\' :: rest => some ('\\', rest)
  | 'x' :: rest => scalarOf 2 rest
  | 'u' :: rest => scalarOf 4 rest
  | 'U' :: rest => scalarOf 8 rest
  | _ => none

def plainChar (quote : Char) : Reader Char := fun text =>
  match text with
  | c :: rest => if c ≠ quote ∧ isPlain c then some (c, rest) else none
  | [] => none

def basicChar : Reader Char := do
  match ← left with
  | '\\' :: rest =>
      set rest
      escape
  | _ => plainChar '"'

def basicString : Reader String := do
  char '"'
  let found ← many basicChar
  char '"'
  return String.ofList found

def literalString : Reader String := do
  char '\''
  let found ← many (plainChar '\'')
  char '\''
  return String.ofList found

def innerQuote (quote : Char) : Reader Char := fun text =>
  match text with
  | a :: rest => if a = quote ∧ rest.take 2 ≠ [quote, quote] then some (a, rest) else none
  | [] => none

def continuation : Reader Unit := do
  char '\\'
  gap
  let _ ← lineBreak
  let _ ← many (do
    match ← left with
    | c :: rest => if isGap c then set rest else discard lineBreak
    | [] => failure)

def piece (quote : Char) : Reader (List Char) := do
  if let some found ← tried lineBreak then return found
  if let some found ← tried (innerQuote quote) then return [found]
  if quote = '"' then
    if ← given continuation then return []
    return [← basicChar]
  else return [← plainChar quote]

/-- The closing quotes. Up to two more before them belong to the string. -/
def closingQuotes (quote : Char) : Reader (List Char) := do
  word [quote, quote, quote]
  let more := (← left).takeWhile (· == quote)
  let kept := more.take 2
  word kept
  return kept

def longString (quote : Char) : Reader String := do
  word [quote, quote, quote]
  let _ ← tried lineBreak
  let pieces ← many (piece quote)
  return String.ofList (pieces.flatten ++ (← closingQuotes quote))

def string : Reader String := do
  match ← left with
  | '"' :: '"' :: '"' :: _ => longString '"'
  | '"' :: _ => basicString
  | '\'' :: '\'' :: '\'' :: _ => longString '\''
  | _ => literalString

/-! Keys. -/

def keyPart : Reader String := do
  match ← left with
  | '"' :: _ => basicString
  | '\'' :: _ => literalString
  | _ =>
      let found ← satisfying isBare
      if found.isEmpty then failure else return String.ofList found

def key : Reader (List String) := do
  let first ← keyPart
  return first :: (← many (do
    gap
    char '.'
    gap
    keyPart))

/-! Numbers. -/

def spacedDigits (isDigit : Char → Bool) : Reader (List Char) := do
  let run : Reader (List Char) := do
    let found ← satisfying isDigit
    if found.isEmpty then failure else return found
  let first ← run
  return first ++ (← many (do char '_'; run)).flatten

def based (radix : Nat) : Reader Value := do
  let found ← spacedDigits (fun c => (Text.hexValue? c).any (· < radix))
  let value := found.foldl (fun n c => radix * n + (Text.hexValue? c).getD 0) 0
  return .integer value

def sign : Reader Bool := do
  if ← given (char '-') then return true
  let _ ← given (char '+')
  return false

def power : Reader Int := do
  if ← given (char 'e') then pure () else char 'E'
  let negative ← sign
  let size : Int := Text.decimalValue (← spacedDigits Text.isDigit)
  return if negative then -size else size

def signed (negative : Bool) (n : Nat) : Int := if negative then -(n : Int) else n

def decimal (negative : Bool) : Reader Value := do
  let whole ← spacedDigits Text.isDigit
  if whole.length ≠ 1 ∧ whole.head? = some '0' then failure
  let places ← tried (do char '.'; spacedDigits Text.isDigit)
  let scale ← tried power
  if places.isNone && scale.isNone then return .integer (signed negative (Text.decimalValue whole))
  let fraction := places.getD []
  let exponent := scale.getD 0 - fraction.length
  match Decimal.Binary64.ofDecimal? negative (Text.decimalValue (whole ++ fraction)) exponent with
  | some x => return .real (.finite x)
  | none => return .real .overflow

def number : Reader Value := do
  match ← left with
  | '0' :: 'x' :: rest =>
      set rest
      based 16
  | '0' :: 'o' :: rest =>
      set rest
      based 8
  | '0' :: 'b' :: rest =>
      set rest
      based 2
  | _ =>
      let negative ← sign
      if ← given (word "inf".toList) then return .real (.infinite negative)
      if ← given (word "nan".toList) then return .real .notNumber
      decimal negative

/-! Dates and times, each as the text it is written back with. -/

def date : Reader (List Char) := do
  let year ← decimalOf 4
  char '-'
  let month ← decimalOf 2
  char '-'
  let day ← decimalOf 2
  if 1 ≤ month ∧ month ≤ 12 ∧ 1 ≤ day ∧ day ≤ Timestamp.daysInMonth year month then
    return Timestamp.digitsOf 4 year ++ '-' :: Timestamp.digitsOf 2 month ++ '-' :: Timestamp.digitsOf 2 day
  else failure

def second : Reader (List Char) := do
  char ':'
  let second ← decimalOf 2
  let nanosecond := (← tried Timestamp.Read.fraction).getD 0
  if second ≤ 60 then return ':' :: Timestamp.digitsOf 2 second ++ Timestamp.fractionText nanosecond else failure

def time : Reader (List Char) := do
  let hour ← decimalOf 2
  char ':'
  let minute ← decimalOf 2
  let rest ← match ← left with
    | ':' :: _ => second
    | _ => pure []
  if hour ≤ 23 ∧ minute ≤ 59 then
    return Timestamp.digitsOf 2 hour ++ ':' :: Timestamp.digitsOf 2 minute ++ rest
  else failure

def offset : Reader (List Char) := do
  if ← given Timestamp.Read.zulu then return ['Z']
  let mark := if ← given (char '-') then '-' else '+'
  if mark = '+' then char '+'
  let hour ← decimalOf 2
  char ':'
  let minute ← decimalOf 2
  if hour ≤ 23 ∧ minute ≤ 59 then
    return mark :: Timestamp.digitsOf 2 hour ++ ':' :: Timestamp.digitsOf 2 minute
  else failure

/-- Whether a time follows a date: behind a letter, or behind a blank if a digit comes next. -/
def startsTime : List Char → Bool
  | 'T' :: _ => true
  | 't' :: _ => true
  | ' ' :: c :: _ => Text.isDigit c
  | _ => false

def dated : Reader (List Char) := do
  let day ← date
  if startsTime (← left) then
    skip (·.drop 1)
    let clock ← time
    let zone := (← tried offset).getD []
    return day ++ 'T' :: clock ++ zone
  else return day

def dateTime : Reader Value := do
  match ← tried dated with
  | some found => return .dateTime (String.ofList found)
  | none => return .dateTime (String.ofList (← time))

def scalar : Reader Value := do
  match ← left with
  | '"' :: _ => return .string (← string)
  | '\'' :: _ => return .string (← string)
  | 't' :: _ =>
      word "true".toList
      return .bool true
  | 'f' :: _ =>
      word "false".toList
      return .bool false
  | _ => match ← tried dateTime with
      | some found => return found
      | none => number

end Read
end DeclOrder.Toml
