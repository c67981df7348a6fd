import Photoplot.Clearance
import Photoplot.Overlay.Boundary
import Photoplot.Overlay.Corners

/-! # Overlaying shapes

Two ways of filling: the difference of two sets of shapes, and a single shape
whose contours are resolved by parity. -/

namespace Photoplot.Overlay

def segmentsOf (lattice : Lattice) (weight : Winding) (shapes : List (Shape Float)) :
    List Segment :=
  shapes.flatten.flatMap fun contour =>
    (sides (corners (contour.map lattice.snap))).filterMap (Segment.ofEdge weight)

def fill (filled : Winding → Bool) (subject clip : List (Shape Float)) :
    List (Shape Float) :=
  let lattice := Lattice.around (subject ++ clip)
  let segments := segmentsOf lattice ⟨1, 0⟩ subject ++ segmentsOf lattice ⟨0, 1⟩ clip
  let arrows := (arrange segments).filterMap (Arrow.ofSided filled)
  (assemble (walks arrows)).map fun rings => rings.map fun ring => ring.map lattice.place

def difference (subject clip : List (Shape Float)) : List (Shape Float) :=
  fill (fun winding => winding.subject ≠ 0 && winding.clip = 0) subject clip

def resolve (shape : Shape Float) : List (Shape Float) :=
  fill (fun winding => winding.subject % 2 ≠ 0) [shape] []

def cutter : Cutter Float := (Overlayer.mk difference resolve).cut

end Photoplot.Overlay
