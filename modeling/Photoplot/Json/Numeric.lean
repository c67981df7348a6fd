import Photoplot.Json.Token

/-! # Numbers of JSON documents

A number is taken as a significand of 64 bits and a power of ten, which are
multiplied or divided once. That is not always the nearest float: digits that
do not fit into the significand are left out, and both the power and the
product are rounded. -/

namespace Photoplot.Json.Numeric

/-- Digits appended to a significand as long as it stays within 64 bits, and the
digits that are left. -/
def absorb (significand : Nat) : Text → Nat × Text
  | [] => (significand, [])
  | digit :: rest =>
      let longer := significand * 10 + Digits.value [digit]
      if longer < 1 <<< 64 then absorb longer rest else (significand, digit :: rest)

/-- A significand times a power of ten. Powers that are no float take several
steps, of which few are enough to reach zero. A product that is too large has no
value. -/
def scaled : Nat → Float → Int → Option Float
  | 0, _, _ => some 0.0
  | steps + 1, magnitude, exponent =>
      if exponent.natAbs ≤ 308 then
        let power := Float.ofScientific 1 false exponent.natAbs
        if 0 ≤ exponent then
          let product := magnitude * power
          if product.isFinite then some product else none
        else some (magnitude / power)
      else if magnitude == 0.0 then some magnitude
      else if 0 ≤ exponent then none
      else scaled steps (magnitude / 1e308) (exponent + 308)

def magnitude? (significand : Nat) (exponent : Int) : Option (Bool × Text) → Option Float
  | none => scaled 8 (Float.ofNat significand) exponent
  | some (negative, digits) =>
      let written := Digits.value digits
      if written < 1 <<< 31 then
        scaled 8 (Float.ofNat significand)
          (if negative then exponent - written else exponent + written)
      else if significand ≠ 0 ∧ !negative then none
      else some 0.0

def toFloat? (numeric : Numeric) : Option Float :=
  let (significand, skipped) := absorb 0 numeric.whole
  let (significand, left) := absorb significand (numeric.fraction.getD [])
  let decimals := (numeric.fraction.getD []).length - left.length
  let magnitude :=
      magnitude? significand ((skipped.length : Int) - decimals) numeric.exponent
  magnitude.map fun magnitude => if numeric.negative then -magnitude else magnitude

end Photoplot.Json.Numeric
