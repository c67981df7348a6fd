import Photoplot.Geometry.Basic

/-! # Bounding boxes

A box spans an interval on each axis. It starts out with nothing on either axis
and grows over the points it is given; a box that holds nothing is shown as the
zero box. -/

namespace Photoplot

/-- The extent on one axis. The two bounds may be in the wrong order, in which
case nothing lies between them. -/
inductive Span (K : Type)
  | none
  | between (low high : K)
  deriving DecidableEq, Repr

namespace Span

variable {K : Type} [Scalar K]

def low : Span K → K
  | .none => Scalar.infinity
  | .between low _ => low

def high : Span K → K
  | .none => -Scalar.infinity
  | .between _ high => high

def isEmpty : Span K → Bool
  | .none => true
  | .between low high => !decide (low ≤ high)

/-- The least span that also holds the value. A value that is not comparable
changes nothing. -/
def cover (value : K) : Span K → Span K
  | .none => if value ≤ value then .between value value else .none
  | .between low high => .between (Scalar.lesser low value) (Scalar.greater high value)

def padded (margin : K) : Span K → Span K
  | .none => .none
  | .between low high => .between (low - margin) (high + margin)

end Span

structure Box (K : Type) where
  x : Span K
  y : Span K
  deriving DecidableEq, Repr

namespace Box

variable {K : Type}

def empty : Box K := ⟨.none, .none⟩

variable [Scalar K]

def ofRect (x y width height : K) : Box K :=
  ⟨.between x (x + width), .between y (y + height)⟩

def isEmpty (box : Box K) : Bool := box.x.isEmpty || box.y.isEmpty

def cover (box : Box K) (point : Point K) : Box K :=
  ⟨box.x.cover point.x, box.y.cover point.y⟩

def coverAll (box : Box K) (points : List (Point K)) : Box K :=
  points.foldl cover box

def join (box other : Box K) : Box K :=
  if other.isEmpty then box
  else (box.cover ⟨other.x.low, other.y.low⟩).cover ⟨other.x.high, other.y.high⟩

/-! An empty box reports zero everywhere. -/

def left (box : Box K) : K := if box.isEmpty then 0.0 else box.x.low

def bottom (box : Box K) : K := if box.isEmpty then 0.0 else box.y.low

def width (box : Box K) : K := if box.isEmpty then 0.0 else box.x.high - box.x.low

def height (box : Box K) : K := if box.isEmpty then 0.0 else box.y.high - box.y.low

def centerX (box : Box K) : K := box.left + box.width / 2.0

def padded (box : Box K) (margin : K) : Box K :=
  if box.isEmpty then box else ⟨box.x.padded margin, box.y.padded margin⟩

def corners (box : Box K) : Contour K :=
  [⟨box.x.low, box.y.low⟩, ⟨box.x.high, box.y.low⟩,
   ⟨box.x.high, box.y.high⟩, ⟨box.x.low, box.y.high⟩]

def ofShapes (shapes : List (Shape K)) : Box K :=
  empty.coverAll shapes.flatten.flatten

end Box

end Photoplot
