import Photoplot.Geometry.Box
import Photoplot.Scalar.Binary64

/-! # The lattice

Polygons are overlaid on a fine lattice of integer points that covers them with
about `2 ^ 30` steps, so that all further decisions are made on integers and
none of them is subject to rounding. -/

namespace Photoplot.Overlay

structure Vec where
  x : Int
  y : Int
  deriving DecidableEq, Repr, Inhabited

namespace Vec

def sub (left right : Vec) : Vec := ⟨left.x - right.x, left.y - right.y⟩

def neg (vector : Vec) : Vec := ⟨-vector.x, -vector.y⟩

/-- Positive when the second vector lies counter-clockwise of the first. -/
def cross (left right : Vec) : Int := left.x * right.y - left.y * right.x

def dot (left right : Vec) : Int := left.x * right.x + left.y * right.y

def before (left right : Vec) : Bool :=
  left.x < right.x || (left.x = right.x && left.y < right.y)

end Vec

/-- How the lattice lies in the plane: its origin and the exponent of two of the
number of its steps in a millimetre. -/
structure Lattice where
  origin : Point Float
  steps : Int
  deriving Repr

namespace Lattice

def powerOfTwo (exponent : Int) : Float := Binary.toFloat ⟨false, 1, exponent⟩

def binaryPlace (value : Float) : Int :=
  match Binary.ofFloat? value with
  | some number => if number.mantissa = 0 then 0
      else number.exponent + number.mantissa.log2
  | none => 0

def around (shapes : List (Shape Float)) : Lattice :=
  let box := Box.ofShapes shapes
  let halfWidth := box.width * 0.5
  let halfHeight := box.height * 0.5
  let extent := Scalar.greater halfWidth halfHeight
  ⟨⟨box.left + halfWidth, box.bottom + halfHeight⟩, 29 - binaryPlace extent⟩

def snap (lattice : Lattice) (point : Point Float) : Vec :=
  let scale := powerOfTwo lattice.steps
  ⟨Binary64.nearestInt ((point.x - lattice.origin.x) * scale),
   Binary64.nearestInt ((point.y - lattice.origin.y) * scale)⟩

def place (lattice : Lattice) (point : Vec) : Point Float :=
  let step := powerOfTwo (-lattice.steps)
  ⟨Float.ofInt point.x * step + lattice.origin.x,
   Float.ofInt point.y * step + lattice.origin.y⟩

end Lattice

end Photoplot.Overlay
