import DeclOrder.Text.Digits

/-! Finite binary64 values as exact dyadic numbers, and rounding of a ratio to the nearest one.
The value is `mantissa * 2 ^ exponent`; all arithmetic is on natural numbers. -/
namespace DeclOrder.Decimal

structure Binary64 where
  negative : Bool
  mantissa : Nat
  exponent : Int
  deriving DecidableEq, Repr

namespace Binary64

def leastExponent : Int := -1074

def greatestExponent : Int := 971

def zero (negative : Bool) : Binary64 := ⟨negative, 0, leastExponent⟩

def isZero (x : Binary64) : Bool := x.mantissa == 0

def ratio (x : Binary64) : Nat × Nat :=
  if 0 ≤ x.exponent then (x.mantissa * twoTo x.exponent.toNat, 1) else (x.mantissa, twoTo (-x.exponent).toNat)

/-- The quotient rounded to the nearest integer, a half to the even one. -/
def roundQuotient (num den : Nat) : Nat :=
  let q := num / den
  let r := num % den
  if 2 * r < den then q else if den < 2 * r then q + 1 else if q % 2 = 0 then q else q + 1

def ratioLog2 (num den : Nat) : Int :=
  let e : Int := (num.log2 : Int) - den.log2
  let fits := if 0 ≤ e then den * twoTo e.toNat ≤ num else den ≤ num * twoTo (-e).toNat
  if fits then e else e - 1

/-- The nearest value, ties to the even mantissa; none where that value is too large to be finite. -/
def ofRatio? (negative : Bool) (num den : Nat) : Option Binary64 :=
  if num = 0 then some (zero negative)
  else
    let e := max (ratioLog2 num den - 52) leastExponent
    let q := if 0 ≤ e then roundQuotient num (den * twoTo e.toNat)
      else roundQuotient (num * twoTo (-e).toNat) den
    let x : Binary64 := if q = twoTo 53 then ⟨negative, twoTo 52, e + 1⟩ else ⟨negative, q, e⟩
    if greatestExponent < x.exponent then none else some x

/-- The nearest value to `digits * 10 ^ exponent`. The two shortcuts keep the powers small: beyond
them the value is certainly too large, or certainly rounds to zero. -/
def ofDecimal? (negative : Bool) (digits : Nat) (exponent : Int) : Option Binary64 :=
  if digits = 0 then some (zero negative)
  else if 400 < exponent then none
  else if 0 ≤ exponent then ofRatio? negative (digits * tenTo exponent.toNat) 1
  else if exponent < -(400 + (Nat.toDigits 10 digits).length : Int) then some (zero negative)
  else ofRatio? negative digits (tenTo (-exponent).toNat)

def mul? (x y : Binary64) : Option Binary64 :=
  ofRatio? x.negative (x.ratio.1 * y.ratio.1) (x.ratio.2 * y.ratio.2)

def div? (x y : Binary64) : Option Binary64 :=
  ofRatio? x.negative (x.ratio.1 * y.ratio.2) (x.ratio.2 * y.ratio.1)

end Binary64
end DeclOrder.Decimal
