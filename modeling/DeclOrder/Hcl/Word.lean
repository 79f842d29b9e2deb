import DeclOrder.Decimal.Binary64
import DeclOrder.Hcl.Trivia
import DeclOrder.Text.Digits
import DeclOrder.Text.Identifier

/-! Identifiers, keywords and numbers. -/
namespace DeclOrder.Hcl

def startsIdentifier (c : Char) : Bool := c == '_' || Text.isXidStart c

def continuesIdentifier (c : Char) : Bool := c == '-' || Text.isXidContinue c

def wordLimit : Nat := twoTo 64

namespace Read
open Reader

def identifier : Reader String := fun text =>
  match text with
  | c :: rest =>
      if startsIdentifier c then
        some (String.ofList (c :: rest.takeWhile continuesIdentifier), rest.dropWhile continuesIdentifier)
      else none
  | [] => none

def wholeNumber : Reader Nat := do
  let found ← digits
  if Text.decimalValue found < wordLimit then return Text.decimalValue found else failure

def fraction : Reader (List Char) := do
  char '.'
  digits

def power : Reader (List Char × List Char) := do
  if ← given (char 'e') then pure () else char 'E'
  if ← given (char '-') then return (['-'], ← digits)
  let _ ← given (char '+')
  return ([], ← digits)

/-- A number as spelled. A whole number fits 64 bits, any other one is finite as a binary64. -/
def number : Reader String := do
  let whole ← digits
  let part ← tried fraction
  let scale ← tried power
  match part, scale with
  | none, none =>
      if Text.decimalValue whole < wordLimit then return String.ofList whole else failure
  | _, _ =>
      let (sign, size) := scale.getD ([], [])
      let shift : Int := if sign = ['-'] then -(Text.decimalValue size : Int) else Text.decimalValue size
      let places := part.getD []
      match Decimal.Binary64.ofDecimal? false (Text.decimalValue (whole ++ places)) (shift - places.length) with
      | some _ => return String.ofList (whole ++ (part.elim [] ('.' :: ·)) ++ (scale.elim [] (fun s => 'e' :: s.1 ++ s.2)))
      | none => failure

def keyword (w : String) : Reader Unit := word w.toList

end Read
end DeclOrder.Hcl
