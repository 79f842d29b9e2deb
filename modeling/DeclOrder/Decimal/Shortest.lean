import DeclOrder.Decimal.Binary64

/-! The shortest decimal that reads back as a binary64 value: the fewest digits, and among those
the nearest to the value. -/
namespace DeclOrder.Decimal

structure Scientific where
  digits : Nat
  exponent : Int
  deriving DecidableEq, Repr

def gridPoint (num den : Nat) (exponent : Int) : Nat × Nat × Nat :=
  let num' := if 0 ≤ exponent then num else num * tenTo (-exponent).toNat
  let den' := if 0 ≤ exponent then den * tenTo exponent.toNat else den
  (num' / den', num' % den', den')

/-- The better of the two neighbours of `x` on the grid of step `10 ^ exponent`, if one of them
reads back as `x`. -/
def readsBackOnGrid (x : Binary64) (exponent : Int) : Option Scientific :=
  let (num, den) := x.ratio
  let (low, rest, scale) := gridPoint num den exponent
  let back (d : Nat) := Binary64.ofDecimal? x.negative d exponent == some x
  let order := if 2 * rest < scale || (2 * rest == scale && low % 2 == 0) then [low, low + 1] else [low + 1, low]
  (order.find? back).map (⟨·, exponent⟩)

/-- `⌊log₁₀ (num / den)⌋` of a positive ratio, found from an estimate that is at most one off. -/
def ratioLog10 (num den : Nat) : Int :=
  let e : Int := ((Nat.toDigits 10 num).length : Int) - (Nat.toDigits 10 den).length
  let fits := if 0 ≤ e then den * tenTo e.toNat ≤ num else den ≤ num * tenTo (-e).toNat
  if fits then e else e - 1

def stripZeros : Nat → Scientific → Scientific
  | 0, s => s
  | fuel + 1, s => if s.digits != 0 && s.digits % 10 == 0 then stripZeros fuel ⟨s.digits / 10, s.exponent + 1⟩ else s

def shortest (x : Binary64) : Scientific :=
  if x.isZero then ⟨0, 0⟩
  else
    let top := ratioLog10 x.ratio.1 x.ratio.2
    let found := (List.range 17).findSome? (fun n : Nat => readsBackOnGrid x (top - n))
    stripZeros 20 (found.getD ⟨(gridPoint x.ratio.1 x.ratio.2 (top - 16)).1, top - 16⟩)

def digitText (n : Nat) : String := String.ofList (Nat.toDigits 10 n)

def zeros (n : Nat) : String := String.ofList (List.replicate n '0')

def positional (s : Scientific) : String × String :=
  let text := Nat.toDigits 10 s.digits
  if 0 ≤ s.exponent then (digitText s.digits ++ zeros s.exponent.toNat, "")
  else
    let places := (-s.exponent).toNat
    if places < text.length then
      (String.ofList (text.take (text.length - places)), String.ofList (text.drop (text.length - places)))
    else ("0", zeros (places - text.length) ++ digitText s.digits)

def sign (x : Binary64) : String := if x.negative then "-" else ""

/-- Never an exponent; a whole number has no point. -/
def Binary64.plain (x : Binary64) : String :=
  let (whole, fraction) := positional (shortest x)
  sign x ++ if fraction = "" then whole else whole ++ "." ++ fraction

/-- Never an exponent, and always a point. -/
def Binary64.pointed (x : Binary64) : String :=
  let (whole, fraction) := positional (shortest x)
  sign x ++ whole ++ "." ++ if fraction = "" then "0" else fraction

/-- Positional with a point from `0.00001` up to sixteen integer digits, else one digit before the
point and an exponent with its sign. -/
def Binary64.compact (x : Binary64) : String :=
  let s := shortest x
  let text := Nat.toDigits 10 s.digits
  let point : Int := text.length + s.exponent
  if s.digits = 0 || (-5 < point && point ≤ 16) then x.pointed
  else
    let lead := String.ofList (text.take 1)
    let tail := text.drop 1
    let power : Int := point - 1
    sign x ++ lead ++ (if tail.isEmpty then "" else "." ++ String.ofList tail) ++ "e" ++
      (if power < 0 then "-" else "+") ++ digitText power.natAbs

end DeclOrder.Decimal
