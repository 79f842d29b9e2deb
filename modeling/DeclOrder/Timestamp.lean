import DeclOrder.Text.Digits

/-! Instants with their offset from universal time, as RFC 3339 writes them. -/
namespace DeclOrder

structure Timestamp where
  year : Nat
  month : Nat
  day : Nat
  hour : Nat
  minute : Nat
  second : Nat
  nanosecond : Nat
  /-- Minutes ahead of universal time. -/
  offset : Int
  deriving DecidableEq, Repr

namespace Timestamp

def isLeapYear (year : Nat) : Bool := year % 4 == 0 && (year % 100 != 0 || year % 400 == 0)

def daysInMonth (year month : Nat) : Nat :=
  if month = 2 then if isLeapYear year then 29 else 28
  else if month = 4 ∨ month = 6 ∨ month = 9 ∨ month = 11 then 30
  else 31

def isRepresentable (t : Timestamp) : Bool :=
  t.year ≤ 9999 && 1 ≤ t.month && t.month ≤ 12 && 1 ≤ t.day && t.day ≤ daysInMonth t.year t.month &&
    t.hour ≤ 23 && t.minute ≤ 59 && t.second ≤ 59 && t.nanosecond ≤ 999999999 && t.offset.natAbs < 24 * 60

def hasText (t : Timestamp) : Bool := t.year ≤ 9999 && t.offset.natAbs < 24 * 60

def epoch : Timestamp := ⟨1970, 1, 1, 0, 0, 0, 0, 0⟩

def digitsOf (n : Nat) (value : Nat) : List Char :=
  match n with
  | 0 => []
  | n + 1 => digitsOf n (value / 10) ++ [Nat.digitChar (value % 10)]

def fractionText (nanosecond : Nat) : List Char :=
  if nanosecond = 0 then []
  else '.' :: ((digitsOf 9 nanosecond).reverse.dropWhile (· == '0')).reverse

def offsetText (offset : Int) : List Char :=
  if offset = 0 then ['Z']
  else (if offset < 0 then '-' else '+') :: digitsOf 2 (offset.natAbs / 60) ++ [':'] ++ digitsOf 2 (offset.natAbs % 60)

def text (t : Timestamp) : String :=
  String.ofList (digitsOf 4 t.year ++ ['-'] ++ digitsOf 2 t.month ++ ['-'] ++ digitsOf 2 t.day ++ ['T'] ++
    digitsOf 2 t.hour ++ [':'] ++ digitsOf 2 t.minute ++ [':'] ++ digitsOf 2 t.second ++
    fractionText t.nanosecond ++ offsetText t.offset)

namespace Read
open Reader

def separator : Reader Unit := fun text =>
  match text with
  | c :: rest => if c.val < 128 then some ((), rest) else none
  | [] => none

/-- Decimal places of a second. What is finer than a nanosecond is dropped. -/
def fraction : Reader Nat := do
  char '.'
  return Text.decimalValue (((← digits) ++ List.replicate 9 '0').take 9)

def zulu : Reader Unit := fun text =>
  match text with
  | 'Z' :: rest => some ((), rest)
  | 'z' :: rest => some ((), rest)
  | _ => none

def offset : Reader Int := do
  if ← given zulu then return 0
  let negative ← given (char '-')
  if !negative then char '+'
  let hours ← decimalOf 2
  char ':'
  let minutes ← decimalOf 2
  if hours ≤ 23 ∧ minutes ≤ 59 then
    return if negative then -((60 * hours + minutes : Nat) : Int) else 60 * hours + minutes
  else failure

end Read

def universalMinute (t : Timestamp) : Int := (60 * t.hour + t.minute : Nat) - t.offset

/-- Whether the instant is in the last minute of a month in universal time. -/
def endsMonth (t : Timestamp) : Bool :=
  let minute := t.universalMinute
  (minute == 24 * 60 - 1 && t.day == daysInMonth t.year t.month) ||
    (minute == 2 * (24 * 60) - 1 && t.day + 1 == daysInMonth t.year t.month) ||
    (minute == -1 && t.day == 1)

/-- A leap second stands for the last nanosecond before it. It can only end a month. -/
def settle (t : Timestamp) : Option Timestamp :=
  let settled := if t.second = 60 then { t with second := 59, nanosecond := 999999999 } else t
  if settled.isRepresentable && (t.second != 60 || settled.endsMonth) then some settled else none

def read : Reader Timestamp := do
  let year ← Reader.decimalOf 4
  Reader.char '-'
  let month ← Reader.decimalOf 2
  Reader.char '-'
  let day ← Reader.decimalOf 2
  Read.separator
  let hour ← Reader.decimalOf 2
  Reader.char ':'
  let minute ← Reader.decimalOf 2
  Reader.char ':'
  let second ← Reader.decimalOf 2
  let nanosecond := (← Reader.tried Read.fraction).getD 0
  let offset ← Read.offset
  match settle ⟨year, month, day, hour, minute, second, nanosecond, offset⟩ with
  | some t => return t
  | none => failure

def parse? (text : String) : Option Timestamp :=
  match read text.toList with
  | some (t, []) => some t
  | _ => none

def ofDay (day : Nat) : Nat × Nat × Nat :=
  let z := day + 719468
  let era := z / 146097
  let dayOfEra := z - era * 146097
  let yearOfEra := (dayOfEra - dayOfEra / 1460 + dayOfEra / 36524 - dayOfEra / 146096) / 365
  let dayOfYear := dayOfEra - (365 * yearOfEra + yearOfEra / 4 - yearOfEra / 100)
  let shifted := (5 * dayOfYear + 2) / 153
  let month := if shifted < 10 then shifted + 3 else shifted - 9
  (yearOfEra + era * 400 + (if month ≤ 2 then 1 else 0), month, dayOfYear - (153 * shifted + 2) / 5 + 1)

def ofUnix (nanoseconds : Nat) : Timestamp :=
  let seconds := nanoseconds / 1000000000
  let (year, month, day) := ofDay (seconds / 86400)
  let inDay := seconds % 86400
  ⟨year, month, day, inDay / 3600, inDay / 60 % 60, inDay % 60, nanoseconds % 1000000000, 0⟩

end Timestamp
end DeclOrder
