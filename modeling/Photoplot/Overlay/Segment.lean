import Photoplot.Overlay.Node

/-! # Segments

An edge of a contour counts for the winding around the places on its two sides.
Two segments meet in nodes at which both have to be cut. -/

namespace Photoplot.Overlay

/-- How often the contours of the two sets wind around a place. -/
structure Winding where
  subject : Int
  clip : Int
  deriving DecidableEq, Repr, Inhabited

namespace Winding

def zero : Winding := ⟨0, 0⟩

def add (left right : Winding) : Winding :=
  ⟨left.subject + right.subject, left.clip + right.clip⟩

def neg (winding : Winding) : Winding := ⟨-winding.subject, -winding.clip⟩

end Winding

/-- An edge of a contour, from its lower end to its higher end. `step` is the
winding on its left less that on its right. -/
structure Segment where
  low : Vec
  high : Vec
  step : Winding
  deriving DecidableEq, Repr, Inhabited

namespace Segment

/-- An edge in its own direction has the inside of its contour on its left. An
edge without length is none. -/
def ofEdge (weight : Winding) (edge : Vec × Vec) : Option Segment :=
  if edge.1.before edge.2 then some ⟨edge.1, edge.2, weight⟩
  else if edge.2.before edge.1 then some ⟨edge.2, edge.1, weight.neg⟩
  else none

def direction (segment : Segment) : Vec := segment.high.sub segment.low

def lowest (segment : Segment) : Int := min segment.low.y segment.high.y

def highest (segment : Segment) : Int := max segment.low.y segment.high.y

def holds (segment : Segment) (point : Vec) : Bool :=
  segment.low.before point && point.before segment.high

/-- The node at which two lines cross, given how far the ends of the first
segment lie to the left of the second one. -/
def crossing (segment : Segment) (lowSide highSide : Int) : Node :=
  let direction := segment.direction
  let across := lowSide - highSide
  Node.reduced (segment.low.x * across + direction.x * lowSide)
    (segment.low.y * across + direction.y * lowSide) across

def meet (first second : Segment) : List Node × List Node :=
  let firstDirection := first.direction
  let secondDirection := second.direction
  let lowSide := secondDirection.cross (first.low.sub second.low)
  let highSide := secondDirection.cross (first.high.sub second.low)
  if lowSide = 0 ∧ highSide = 0 then
    (([second.low, second.high].filter first.holds).map Node.ofVec,
     ([first.low, first.high].filter second.holds).map Node.ofVec)
  else
    let lowOther := firstDirection.cross (second.low.sub first.low)
    let highOther := firstDirection.cross (second.high.sub first.low)
    if 0 < lowSide * highSide ∨ 0 < lowOther * highOther then ([], [])
    else if lowSide = 0 then
      ([], if second.holds first.low then [.ofVec first.low] else [])
    else if highSide = 0 then
      ([], if second.holds first.high then [.ofVec first.high] else [])
    else if lowOther = 0 then ([.ofVec second.low], [])
    else if highOther = 0 then ([.ofVec second.high], [])
    else
      let node := first.crossing lowSide highSide
      ([node], [node])

end Segment

end Photoplot.Overlay
