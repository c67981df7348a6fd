import Photoplot.Source.Coordinate
import Photoplot.Warning

/-! # Decoding coordinates

Coordinates become millimetres by the format and the units of the header. The
first format and the first units hold for the whole layer, so that a stray
header in the middle cannot rescale what came before. -/

namespace Photoplot

structure Decoder where
  format : CoordinateFormat
  units : Units
  formatFixed : Bool
  unitsFixed : Bool
  deriving DecidableEq, Repr

namespace Decoder

def start : Decoder := ⟨.standard, .millimeters, false, false⟩

def setFormat (decoder : Decoder) (format : CoordinateFormat) : Noted Decoder := do
  if decoder.formatFixed then
    if format ≠ decoder.format then Noted.note .formatRepeated
    return decoder
  else return { decoder with format, formatFixed := true }

def setUnits (decoder : Decoder) (units : Units) : Noted Decoder := do
  if decoder.unitsFixed then
    if units ≠ decoder.units then Noted.note (.unitsRepeated units)
    return decoder
  else return { decoder with units, unitsFixed := true }

variable {K : Type} [Scalar K]

def toMillimeters (decoder : Decoder) (length : K) : K := length * decoder.units.scale

/-- The number that a field stands for, in units of the file. Trailing zeros that
were left out are put back before the decimal point is. -/
def value (decoder : Decoder) (axis : Axis) : RawCoordinate K → K
  | .decimal value => value
  | .integer value digits =>
      let counts := decoder.format.counts axis
      let whole : K :=
        if decoder.format.zeros = .trailing ∧ digits < counts.total then
          Scalar.ofInt value * Scalar.power 10.0 (counts.total - digits)
        else Scalar.ofInt value
      whole / Scalar.power 10.0 counts.decimal

def decode (decoder : Decoder) (axis : Axis) (raw : RawCoordinate K) : K :=
  decoder.toMillimeters (decoder.value axis raw)

end Decoder

end Photoplot
