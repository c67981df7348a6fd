import Photoplot.Scalar.Basic

/-! # Points, contours and shapes

Coordinates are in millimetres, with `y` pointing up. A contour is a closed
ring of vertices: its last vertex connects back to the first. A shape is filled;
its outer contour comes first and its holes follow. -/

namespace Photoplot

structure Point (K : Type) where
  x : K
  y : K
  deriving DecidableEq, Repr

abbrev Contour (K : Type) := List (Point K)

abbrev Shape (K : Type) := List (Contour K)

def degenerateLength {K : Type} [Scalar K] : K := 1e-9

namespace Point

variable {K : Type}

def origin [Scalar K] : Point K := ⟨0.0, 0.0⟩

def Same [Scalar K] (left right : Point K) : Prop :=
  Scalar.Same left.x right.x ∧ Scalar.Same left.y right.y

instance [Scalar K] (left right : Point K) : Decidable (left.Same right) :=
    instDecidableAnd

def IsFinite [Scalar K] (point : Point K) : Bool :=
  Scalar.isFinite point.x && Scalar.isFinite point.y

def distance [PlaneScalar K] (left right : Point K) : K :=
  PlaneScalar.hypot (left.x - right.x) (left.y - right.y)

def rotate [PlaneScalar K] (degrees : K) (point : Point K) : Point K :=
  if Scalar.abs degrees < 1e-9 then point
  else
    let angle := PlaneScalar.ofDegrees degrees
    let sine := PlaneScalar.sin angle
    let cosine := PlaneScalar.cos angle
    ⟨point.x * cosine - point.y * sine, point.x * sine + point.y * cosine⟩

def polar [PlaneScalar K] (center : Point K) (radius angle : K) : Point K :=
  ⟨center.x + radius * PlaneScalar.cos angle, center.y + radius * PlaneScalar.sin angle⟩

end Point

end Photoplot
