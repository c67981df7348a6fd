import Photoplot.Source.Command
import Photoplot.Table
import Photoplot.Warning

/-! # Apertures

The tools that a layer defines. Standard shapes are kept in millimetres. A
custom shape keeps its parameters as they are, and the size of a unit at the
time of its definition, since an aperture macro is scaled after it has run. -/

namespace Photoplot

structure Aperture (K : Type) where
  shape : ApertureShape K
  unit : K
  deriving DecidableEq, Repr

abbrev Apertures (K : Type) := Table Nat (Aperture K)

variable {K : Type} [Scalar K]

def ApertureShape.scaled (scale : K) : ApertureShape K → ApertureShape K
  | .circle diameter => .circle (diameter * scale)
  | .rectangle width height => .rectangle (width * scale) (height * scale)
  | .obround width height => .obround (width * scale) (height * scale)
  | .polygon diameter vertices rotation => .polygon (diameter * scale) vertices rotation
  | .custom name parameters => .custom name parameters

namespace Apertures

def define (apertures : Apertures K) (code : Nat) (shape : ApertureShape K)
    (units : Units) :
    Noted (Apertures K) := do
  if apertures.contains code then Noted.note (.apertureRedefined code)
  return apertures.insert code ⟨shape.scaled units.scale, units.scale⟩

/-- The width of strokes for which no usable aperture is selected, and of the
pads flashed in its place. -/
def defaultWidth : K := 0.1

def strokeWidth (apertures : Apertures K) : Option Nat → Noted K
  | none => do
      Noted.note .strokeWithoutAperture
      return defaultWidth
  | some code => do
      match (apertures.find? code).map Aperture.shape with
      | some (.circle diameter) => return diameter
      | some (.rectangle width height) => return Scalar.lesser width height
      | some (.obround width height) => return Scalar.lesser width height
      | some (.polygon diameter _ _) => return diameter
      | some (.custom name _) =>
          Noted.note (.strokeWithTemplate code name)
          return defaultWidth
      | none =>
          Noted.note (.strokeUndefined code)
          return defaultWidth

end Apertures

end Photoplot
