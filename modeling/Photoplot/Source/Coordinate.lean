import Photoplot.Scalar.Basic

/-! # Coordinate data

How coordinates are written in a layer: the units and the format that the
header declares, and the fields of an operation before the format is applied. -/

namespace Photoplot

inductive Units
  | millimeters
  | inches
  deriving DecidableEq, Repr

def Units.scale {K : Type} [Scalar K] : Units → K
  | .millimeters => 1.0
  | .inches => 25.4

inductive ZeroSuppression
  | leading
  | trailing
  deriving DecidableEq, Repr

inductive Addressing
  | absolute
  | incremental
  deriving DecidableEq, Repr

inductive Axis
  | x
  | y
  deriving DecidableEq, Repr

structure DigitCounts where
  integer : Nat
  decimal : Nat
  deriving DecidableEq, Repr

def DigitCounts.total (counts : DigitCounts) : Nat := counts.integer + counts.decimal

structure CoordinateFormat where
  zeros : ZeroSuppression
  addressing : Addressing
  x : DigitCounts
  y : DigitCounts
  deriving DecidableEq, Repr

namespace CoordinateFormat

def standard : CoordinateFormat := ⟨.leading, .absolute, ⟨3, 6⟩, ⟨3, 6⟩⟩

def counts (format : CoordinateFormat) : Axis → DigitCounts
  | .x => format.x
  | .y => format.y

end CoordinateFormat

/-- A coordinate field as it is written. Digits have an implied point; a number
with a point in it stands for itself. -/
inductive RawCoordinate (K : Type)
  | integer (value : Int) (digits : Nat)
  | decimal (value : K)
  deriving DecidableEq, Repr

namespace RawCoordinate

variable {K : Type} [Scalar K]

def read? (text : Text) : Option (RawCoordinate K) :=
  if text.contains '.' then (Scalar.read? text).map .decimal
  else
    let unsigned := text.dropWhile fun c => c = '+' || c = '-'
    if Digits.isRun unsigned && decide (unsigned.length ≤ 255) then
      (Digits.readSigned text).map fun value => .integer value unsigned.length
    else none

end RawCoordinate

end Photoplot
