import Photoplot.Overlay.Strips

/-! # Arrangements

All edges of two sets of contours are cut at each other. What results is a set
of pieces that meet at their ends only, each with the winding numbers of both
sets on its two sides. -/

namespace Photoplot.Overlay

/-! ## Cutting -/

structure Numbered where
  number : Nat
  segment : Segment
  deriving Repr, Inhabited

/-- The cuts of one segment with those behind it in the order of their lower
ends, as pairs of a segment's number and a node. -/
def cutsWith (first : Numbered) : List Numbered → List (Nat × Node)
  | [] => []
  | second :: rest =>
      if first.segment.high.x < second.segment.low.x then []
      else if first.segment.highest < second.segment.lowest ∨
          second.segment.highest < first.segment.lowest then cutsWith first rest
      else
        let (own, other) := first.segment.meet second.segment
        own.map (first.number, ·) ++ other.map (second.number, ·) ++ cutsWith first rest

def cuts : List Numbered → List (Nat × Node)
  | [] => []
  | first :: rest => cutsWith first rest ++ cuts rest

/-- A part of an edge between neighbouring nodes, from its lower end to its
higher end, with the direction of the edge. -/
structure Piece where
  low : Node
  high : Node
  direction : Vec
  step : Winding
  deriving DecidableEq, Repr, Inhabited

def sortedNodes (nodes : List Node) : List Node :=
  let sorted := nodes.mergeSort fun left right => !right.before left
  sorted.foldr (fun node kept => if kept.head? = some node then kept else node :: kept) []

def piecesOf (segment : Segment) (nodes : List Node) : List Piece :=
  let stops := Node.ofVec segment.low :: sortedNodes nodes ++ [Node.ofVec segment.high]
  (stops.zip stops.tail).map fun (low, high) =>
    ⟨low, high, segment.direction, segment.step⟩

/-- Pieces that lie on one another become one, whose step is the sum. -/
def merged (pieces : List Piece) : List Piece :=
  let sorted := pieces.mergeSort fun left right =>
    left.low.before right.low || (left.low = right.low && !right.high.before left.high)
  let joined := sorted.foldr (fun piece kept =>
    match kept with
    | next :: rest =>
        if next.low = piece.low ∧ next.high = piece.high then
          { next with step := next.step.add piece.step } :: rest
        else piece :: kept
    | [] => [piece]) []
  joined.filter fun piece => piece.step ≠ Winding.zero

/-! ## Sides -/

structure Sided where
  piece : Piece
  left : Winding
  right : Winding
  deriving Repr, Inhabited

def arrange (segments : List Segment) : List Sided :=
  let ordered := segments.mergeSort fun left right => !right.low.before left.low
  let numbered := ordered.mapIdx fun number segment => Numbered.mk number segment
  let nodes := (cuts numbered).foldl
    (fun table (number, node) => table.modify number (node :: ·))
    (Array.replicate ordered.length [])
  let pieces := numbered.flatMap fun each =>
      piecesOf each.segment (nodes.getD each.number [])
  let strips := Strips.ofSegments segments
  (merged pieces).map fun piece =>
    let right := strips.windingAt (piece.low.middle piece.high)
    ⟨piece, right.add piece.step, right⟩

end Photoplot.Overlay
