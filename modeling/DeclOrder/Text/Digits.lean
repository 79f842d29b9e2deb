import DeclOrder.Text.Reader

/-! Decimal and hexadecimal digits, alone and in runs, with the powers that scale the numbers they write and
bound them. -/
namespace DeclOrder

def twoTo (n : Nat) : Nat := Nat.pow 2 n

def tenTo (n : Nat) : Nat := Nat.pow 10 n

def isWord (bits : Nat) (n : Int) : Bool := 0 ≤ n && n < twoTo bits

def isSignedWord (bits : Nat) (n : Int) : Bool := -(twoTo (bits - 1) : Int) ≤ n && n < twoTo (bits - 1)

end DeclOrder

namespace DeclOrder.Text

def isDigit (c : Char) : Bool := '0' ≤ c && c ≤ '9'

def digitValue (c : Char) : Nat := c.toNat - '0'.toNat

def decimalValue (digits : List Char) : Nat := digits.foldl (fun n c => 10 * n + digitValue c) 0

def hexValue? (c : Char) : Option Nat :=
  if isDigit c then some (digitValue c)
  else if 'a' ≤ c ∧ c ≤ 'f' then some (c.toNat - 'a'.toNat + 10)
  else if 'A' ≤ c ∧ c ≤ 'F' then some (c.toNat - 'A'.toNat + 10)
  else none

end DeclOrder.Text

namespace DeclOrder.Reader
open Text

def digits : Reader (List Char) := fun text =>
  let found := text.takeWhile isDigit
  if found.isEmpty then none else some (found, text.dropWhile isDigit)

def decimalOf (n : Nat) : Reader Nat := fun text =>
  let found := text.take n
  if found.length = n ∧ found.all isDigit then some (decimalValue found, text.drop n) else none

def hexOf (n : Nat) : Reader Nat := fun text => do
  let found ← (text.take n).mapM hexValue?
  if found.length = n then some (found.foldl (16 * · + ·) 0, text.drop n) else none

def scalarOf (n : Nat) : Reader Char := do
  let value ← hexOf n
  if value.isValidChar then return Char.ofNat value else failure

end DeclOrder.Reader
