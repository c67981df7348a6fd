import Photoplot.Overlay.Segment

/-! # Strips

Segments sorted into vertical strips of equal width, so that only those near a
place have to be looked at when the winding around it is counted. -/

namespace Photoplot.Overlay

/-- A segment belongs to every strip that it reaches into. -/
structure Strips where
  left : Int
  width : Int
  columns : Array (List Segment)
  deriving Repr

namespace Strips

def indexOf (strips : Strips) (x : Int) : Nat := ((x - strips.left) / strips.width).toNat

def add (strips : Strips) (segment : Segment) : Strips :=
  let first := strips.indexOf segment.low.x
  let last := strips.indexOf segment.high.x
  { strips with
    columns := (List.range' first (last + 1 - first)).foldl
      (fun columns index => columns.modify index (segment :: ·)) strips.columns }

def ofSegments (segments : List Segment) : Strips :=
  match segments with
  | [] => ⟨0, 1, #[]⟩
  | first :: rest =>
      let left := rest.foldl (fun least segment => min least segment.low.x) first.low.x
      let right := rest.foldl (fun most segment => max most segment.high.x) first.high.x
      let count := segments.length / 8 + 1
      segments.foldl add ⟨left, (right - left) / count + 1, Array.replicate count []⟩

/-- Whether a segment passes below a node, which is in the given row and has the
segment in its column. Mostly the height of the segment alone decides. -/
def isBelow (node : Node) (row : Int) (segment : Segment) : Bool :=
  segment.highest < row ||
    (segment.lowest ≤ row && 0 < segment.direction.cross (node.offsetFrom segment.low))

/-- The winding just to the right of a node: the steps of all segments met on the
way up to it from far below. -/
def windingAt (strips : Strips) (node : Node) : Winding :=
  let column := node.x / node.scale
  let row := node.y / node.scale
  (strips.columns.getD (strips.indexOf column) []).foldl (fun total segment =>
    if segment.low.x ≤ column ∧ column < segment.high.x ∧ isBelow node row segment then
      total.add segment.step
    else total) .zero

end Strips

end Photoplot.Overlay
