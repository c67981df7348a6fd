import Photoplot.Overlay.Lattice

/-! # Nodes

Edges between lattice points meet at rational points. A node is such a point in
lowest terms, so that equal points are equal as data. -/

namespace Photoplot.Overlay

/-- The point `(x / scale, y / scale)`. -/
structure Node where
  x : Int
  y : Int
  scale : Nat
  deriving DecidableEq, Repr, Inhabited, Hashable

namespace Node

def ofVec (point : Vec) : Node := ⟨point.x, point.y, 1⟩

def reduced (x y denominator : Int) : Node :=
  let common := Nat.gcd (Nat.gcd x.natAbs y.natAbs) denominator.natAbs
  let divisor : Int := if denominator < 0 then -(common : Int) else common
  ⟨x / divisor, y / divisor, denominator.natAbs / common⟩

example : reduced 2 (-4) (-6) = ⟨-1, 2, 3⟩ := by decide

def before (left right : Node) : Bool :=
  if left.scale = right.scale then
    left.x < right.x || (left.x = right.x && left.y < right.y)
  else
    let leftX := left.x * right.scale
    let rightX := right.x * left.scale
    leftX < rightX ||
      (leftX = rightX && left.y * right.scale < right.y * left.scale)

def middle (left right : Node) : Node :=
  reduced (left.x * right.scale + right.x * left.scale)
    (left.y * right.scale + right.y * left.scale) (2 * left.scale * right.scale)

/-- A vector from a lattice point, seen in units of the node's denominator. -/
def offsetFrom (node : Node) (origin : Vec) : Vec :=
  ⟨node.x - origin.x * node.scale, node.y - origin.y * node.scale⟩

def nearest (node : Node) : Vec :=
  let half : Int := node.scale
  ⟨(2 * node.x + half) / (2 * node.scale), (2 * node.y + half) / (2 * node.scale)⟩

end Node

end Photoplot.Overlay
