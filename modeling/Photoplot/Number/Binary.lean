/-! # Binary numbers

The exact value of a finite float, `±mantissa · 2 ^ exponent`, and the
operations that are exact on it: rounding to an integer, the least integer
above, the remainder of a division. They are done on natural numbers, so each
has a definition to reason with. -/

namespace Photoplot

structure Binary where
  negative : Bool
  mantissa : Nat
  exponent : Int
  deriving DecidableEq, Repr

namespace Binary

/-- The fields of the 64 bits: a sign, 11 bits of exponent, 52 of fraction.
Infinities and the undefined value have no binary number. -/
def ofFloat? (x : Float) : Option Binary :=
  let bits := x.toBits.toNat
  let negative := decide (1 <<< 63 ≤ bits)
  let field : Nat := (bits >>> 52) % (1 <<< 11)
  let fraction := bits % (1 <<< 52)
  if field = 2047 then none
  else if field = 0 then some ⟨negative, fraction, -1074⟩
  else some ⟨negative, fraction + 1 <<< 52, (field : Int) - 1075⟩

/-- The float with this value. The mantissa has at most 53 bits and the value
is within the range of the exponents. -/
def toFloat (number : Binary) : Float :=
  let sign := if number.negative then 1 <<< 63 else 0
  if number.mantissa = 0 then Float.ofBits (UInt64.ofNat sign)
  else
    let shift := 52 - number.mantissa.log2
    let lowest := number.exponent - shift
    if lowest < -1074 then
      let fraction := number.mantissa <<< (number.exponent + 1074).toNat
      Float.ofBits (UInt64.ofNat (sign + fraction))
    else
      let fraction := number.mantissa <<< shift - 1 <<< 52
      let field := (lowest + 1075).toNat
      Float.ofBits (UInt64.ofNat (sign + field <<< 52 + fraction))

/-- The magnitude's nearest natural number; a half goes up. -/
def nearest (number : Binary) : Nat :=
  match number.exponent with
  | .ofNat power => number.mantissa <<< power
  | .negSucc power => (number.mantissa + 1 <<< power) >>> (power + 1)

def ceiling (number : Binary) : Nat :=
  if number.negative then 0
  else
    match number.exponent with
    | .ofNat power => number.mantissa <<< power
    | .negSucc power => (number.mantissa + (1 <<< (power + 1) - 1)) >>> (power + 1)

def nearestInt (number : Binary) : Int :=
  if number.negative then -(number.nearest : Int) else number.nearest

example : nearest ⟨false, 5, -1⟩ = 3 := by decide

example : ceiling ⟨false, 9, -2⟩ = 3 := by decide

/-- What is left of the magnitude after taking out whole multiples of another
one, with the sign of the value. -/
def remainder (number divisor : Binary) : Binary :=
  let low := min number.exponent divisor.exponent
  let left := number.mantissa <<< (number.exponent - low).toNat
  let right := divisor.mantissa <<< (divisor.exponent - low).toNat
  ⟨number.negative, left % right, low⟩

example : remainder ⟨true, 7, 0⟩ ⟨false, 5, -1⟩ = ⟨true, 4, -1⟩ := by decide

end Binary

end Photoplot
