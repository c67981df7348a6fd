import Photoplot.Geometry.Basic

/-! # Contours of strokes and pads

The polygons that straight strokes and the standard pads fill, and the signed
area that tells which way around a contour goes. -/

namespace Photoplot

namespace Contour

variable {K : Type}

/-- The rectangle that a straight draw of a given width sweeps. Both end points
are moved by half the width along the unit normal. A draw without length has
none. -/
def stroke? [PlaneScalar K] (start finish : Point K) (width : K) : Option (Contour K) :=
  let dx := finish.x - start.x
  let dy := finish.y - start.y
  let length := PlaneScalar.hypot dx dy
  if length < degenerateLength then none
  else
    let half := width / 2.0
    let nx := -dy / length * half
    let ny := dx / length * half
    some [⟨start.x + nx, start.y + ny⟩, ⟨start.x - nx, start.y - ny⟩,
      ⟨finish.x - nx, finish.y - ny⟩, ⟨finish.x + nx, finish.y + ny⟩]

def rectangle [Scalar K] (center : Point K) (width height : K) : Contour K :=
  let halfWidth := width / 2.0
  let halfHeight := height / 2.0
  [⟨center.x - halfWidth, center.y - halfHeight⟩,
   ⟨center.x + halfWidth, center.y - halfHeight⟩,
   ⟨center.x + halfWidth, center.y + halfHeight⟩,
   ⟨center.x - halfWidth, center.y + halfHeight⟩]

def cap [PlaneScalar K] (base : K) (place : K → K → Point K) : List (Point K) :=
  (List.range 17).map fun step =>
    let angle := base + PlaneScalar.pi * Scalar.ofNat step / 16.0
    place (PlaneScalar.cos angle) (PlaneScalar.sin angle)

def obround [PlaneScalar K] (center : Point K) (width height : K) : Contour K :=
  if height ≤ width then
    let radius := height / 2.0
    let straight := width / 2.0 - radius
    let side (offset base : K) := cap base fun cosine sine =>
      ⟨center.x + offset + radius * cosine, center.y + radius * sine⟩
    side straight (-PlaneScalar.pi / 2.0) ++ side (-straight) (PlaneScalar.pi / 2.0)
  else
    let radius := width / 2.0
    let straight := height / 2.0 - radius
    let side (offset base : K) := cap base fun cosine sine =>
      ⟨center.x + radius * cosine, center.y + offset + radius * sine⟩
    side straight 0.0 ++ side (-straight) PlaneScalar.pi

/-- A regular polygon inside a circle of the given diameter; its first vertex
lies at the rotation angle. It has three vertices at least. -/
def regular [PlaneScalar K] (center : Point K) (diameter : K) (vertices : Nat)
    (rotation : K) : Contour K :=
  let radius := diameter / 2.0
  let count := max vertices 3
  let first := PlaneScalar.ofDegrees rotation
  (List.range count).map fun step =>
    center.polar radius
      (first + PlaneScalar.turn * Scalar.ofNat step / Scalar.ofNat count)

def edges (contour : Contour K) : List (Point K × Point K) :=
  contour.zip (contour.tail ++ contour.head?.toList)

example : edges [⟨0, 0⟩, ⟨1, 0⟩, ⟨0, 1⟩] =
    [((⟨0, 0⟩ : Point Nat), ⟨1, 0⟩), (⟨1, 0⟩, ⟨0, 1⟩), (⟨0, 1⟩, ⟨0, 0⟩)] := rfl

/-- Twice the area of the triangle that an edge spans with the origin. -/
def cross [Scalar K] (edge : Point K × Point K) : K :=
  edge.1.x * edge.2.y - edge.2.x * edge.1.y

def area [Scalar K] (contour : Contour K) : K :=
  if contour.length < 3 then 0.0
  else contour.edges.foldl (fun sum edge => sum + cross edge) 0.0 / 2.0

end Contour

namespace Shape

variable {K : Type} [Scalar K]

def area : Shape K → K
  | [] => 0.0
  | outer :: holes =>
      holes.foldl (fun sum hole => sum + -Scalar.abs hole.area) (Scalar.abs outer.area)

def totalArea (shapes : List (Shape K)) : K :=
  shapes.foldl (fun sum shape => sum + area shape) 0.0

/-- A contour turned around, unless it is counter-clockwise exactly when that is
wanted. -/
def orientContour (counterclockwise : Bool) (contour : Contour K) : Contour K :=
  if decide (0.0 < contour.area) = counterclockwise then contour else contour.reverse

def orient : Shape K → Shape K
  | [] => []
  | outer :: holes => orientContour true outer :: holes.map (orientContour false)

end Shape

end Photoplot
