import Photoplot.Number.Layout
import Photoplot.Scalar.Basic

/-! # Floats as scalars

The instance that the program runs on. Arithmetic is that of 64-bit floats;
rounding, remainders and lengths are computed from exact binary values or with
a correction, so that they are right to the last digit where the path needs
it. -/

namespace Photoplot.Binary64

def infinity : Float := 1.0 / 0.0

def round (x : Float) : Float :=
  match Binary.ofFloat? x with
  | none => x
  | some number =>
      if 0 ≤ number.exponent then x
      else
        let magnitude := Float.ofNat number.nearest
        if number.negative then -magnitude else magnitude

example : round (-2.5) = -3.0 := by decide +kernel

def ceilNat (x : Float) : Nat :=
  match Binary.ofFloat? x with
  | none => 0
  | some number => number.ceiling

def nearestInt (x : Float) : Int :=
  match Binary.ofFloat? x with
  | none => 0
  | some number => number.nearestInt

/-- The float nearest to a decimal. Magnitudes that are clearly out of range are
settled by their logarithm, so that no large power is formed for them. -/
def ofDecimal (negative : Bool) (digits : Nat) (exponent : Int) : Float :=
  let bits : Int := digits.log2
  let magnitude : Float :=
    if digits = 0 then 0.0
    else if 310 * 100000 < bits * 30102 + exponent * 100000 then infinity
    else if (bits + 1) * 30103 + exponent * 100000 < -330 * 100000 then 0.0
    else Float.ofScientific digits (decide (exponent < 0)) exponent.natAbs
  if negative then -magnitude else magnitude

def ofNumeral (numeral : Numeral) : Float :=
  match numeral with
  | .decimal negative digits exponent => ofDecimal negative digits exponent
  | .infinite negative => if negative then -infinity else infinity
  | .undefined => 0.0 / 0.0

/-- The remainder of a division by a positive value, shifted up by the divisor
when it is negative. -/
def modulo (x divisor : Float) : Float :=
  match Binary.ofFloat? x, Binary.ofFloat? divisor with
  | some left, some right =>
      let rest := (left.remainder right).toFloat
      if rest < 0.0 then rest + divisor else rest
  | _, _ => 0.0 / 0.0

/-- The root of a sum of two squares, `longer ≥ shorter ≥ 0`, with one step of
Newton's method. The residual is arranged so that its terms are nearly exact. -/
def correctedLength (longer shorter : Float) : Float :=
  let length := Float.sqrt (longer * longer + shorter * shorter)
  let residual :=
    if length ≤ 2.0 * shorter then
      let excess := length - shorter
      longer * (2.0 * excess - longer) + (excess - 2.0 * (longer - shorter)) * excess
    else
      let excess := length - longer
      2.0 * excess * (longer - 2.0 * shorter) +
        ((4.0 * excess - shorter) * shorter + excess * excess)
  length - residual / (2.0 * length)

/-- The length of a vector. A part below the precision of the other one does not
count; squares that could leave the range are avoided by scaling. -/
def hypot (x y : Float) : Float :=
  if !(x.isFinite && y.isFinite) then
    if x.isInf || y.isInf then infinity else 0.0 / 0.0
  else
    let longer := if x.abs < y.abs then y.abs else x.abs
    let shorter := if x.abs < y.abs then x.abs else y.abs
    let negligible : Float := Binary.toFloat ⟨false, 1, -54⟩
    let small : Float := Binary.toFloat ⟨false, 1, -600⟩
    let large : Float := Binary.toFloat ⟨false, 1, 600⟩
    if shorter ≤ longer * negligible then longer + shorter
    else if Binary.toFloat ⟨false, 1, 511⟩ < longer then
      correctedLength (longer * small) (shorter * small) * large
    else if shorter < Binary.toFloat ⟨false, 1, -459⟩ then
      correctedLength (longer * large) (shorter * large) * small
    else correctedLength longer shorter

end Photoplot.Binary64

namespace Photoplot

instance : PlaneScalar Float where
  decidableLT := inferInstance
  decidableLE := inferInstance
  ofInt := Float.ofInt
  abs := Float.abs
  round := Binary64.round
  ceilNat := Binary64.ceilNat
  isFinite := Float.isFinite
  infinity := Binary64.infinity
  ofNumeral? numeral := some (Binary64.ofNumeral numeral)
  text := Layout.plain
  pi := 3.141592653589793
  sin := Float.sin
  cos := Float.cos
  atan2 := Float.atan2
  hypot := Binary64.hypot
  modulo := Binary64.modulo

end Photoplot
