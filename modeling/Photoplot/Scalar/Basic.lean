import Photoplot.Number.Numeral

/-! # Scalars

The numbers that lengths, coordinates and angles are made of. Everything the
plotter computes is defined over this class, once: the program runs on floats,
and the same definitions make sense over exact numbers. Literals are written
with a point or an exponent, since every scalar type reads those. -/

namespace Photoplot

/-- Ordered arithmetic with a written form.

`infinity` is only ever shown, as the bound of a box that holds nothing; a type
without such a value may put any value there. `ofNumeral?` fails for numerals
the type has no value for. -/
class Scalar (K : Type) extends
    Add K, Sub K, Mul K, Div K, Neg K, LT K, LE K, OfScientific K where
  decidableLT : DecidableLT K
  decidableLE : DecidableLE K
  ofInt : Int → K
  abs : K → K
  /-- The nearest integer; a half goes away from zero. -/
  round : K → K
  /-- The least natural number that is not below the value. -/
  ceilNat : K → Nat
  isFinite : K → Bool
  infinity : K
  ofNumeral? : Numeral → Option K
  /-- The fewest decimal digits that stand for the value, in positional form. -/
  text : K → Text

namespace Scalar

variable {K : Type} [Scalar K]

instance (left right : K) : Decidable (left < right) := decidableLT left right

instance (left right : K) : Decidable (left ≤ right) := decidableLE left right

def ofNat (number : Nat) : K := ofInt number

/-- Equality as the order sees it: the two zeros are the same, and a value that
is not comparable is not even the same as itself. -/
def Same (left right : K) : Prop := left ≤ right ∧ right ≤ left

instance (left right : K) : Decidable (Same left right) := instDecidableAnd

/-- The smaller of two values. A value that is not comparable loses. -/
def lesser (left right : K) : K :=
  if left ≤ left then (if right < left then right else left) else right

def greater (left right : K) : K :=
  if left ≤ left then (if left < right then right else left) else right

def power (base : K) (exponent : Nat) : K :=
  if _zero : exponent = 0 then 1.0
  else go base exponent 1.0
where
  go (base : K) (exponent : Nat) (result : K) : K :=
    let result := if exponent % 2 = 1 then result * base else result
    if _last : exponent / 2 = 0 then result
    else go (base * base) (exponent / 2) result
  termination_by exponent

def roundPlaces (places : Nat) (value : K) : K :=
  let factor := power (10.0 : K) places
  let rounded := round (value * factor) / factor
  if Same rounded 0.0 then 0.0 else rounded

def coordinate (value : K) : Text := text (roundPlaces 6 value)

def read? (written : Text) : Option K := (Numeral.read written).bind ofNumeral?

end Scalar

/-- Scalars with the functions of plane geometry. Angles are in radians. -/
class PlaneScalar (K : Type) extends Scalar K where
  pi : K
  sin : K → K
  cos : K → K
  /-- The angle of the direction from the origin to the point `(x, y)`, given as
  `atan2 y x`. -/
  atan2 : K → K → K
  /-- The length of the vector `(x, y)`. -/
  hypot : K → K → K
  /-- What is left after whole multiples of a positive divisor are taken out,
  never negative. -/
  modulo : K → K → K

namespace PlaneScalar

variable {K : Type} [PlaneScalar K]

def turn : K := 2.0 * pi

def ofDegrees (degrees : K) : K := degrees * (pi / 180.0)

end PlaneScalar

end Photoplot
