import Photoplot.Overlay.Arrangement
import Photoplot.Overlay.Corners
import Std.Data.HashMap

/-! # Boundaries

A fill rule tells from the windings which places belong to the result. The
pieces with the result on one side only are its boundary; they are joined into
contours that have the result on their right, so that outer contours go
clockwise and holes counter-clockwise. -/

namespace Photoplot.Overlay

/-- A piece of the boundary in the direction in which the result is on its
right. -/
structure Arrow where
  start : Node
  finish : Node
  direction : Vec
  deriving DecidableEq, Repr, Inhabited

def Arrow.ofSided (filled : Winding → Bool) (sided : Sided) : Option Arrow :=
  let piece := sided.piece
  match filled sided.left, filled sided.right with
  | false, true => some ⟨piece.low, piece.high, piece.direction⟩
  | true, false => some ⟨piece.high, piece.low, piece.direction.neg⟩
  | _, _ => none

/-! ## Turning -/

/-- Which part of a turn leads from one direction to another, going
counter-clockwise: less than half, half, more than half, or all of it. -/
def quarter (base direction : Vec) : Nat :=
  let side := base.cross direction
  if 0 < side then 0
  else if side < 0 then 2
  else if base.dot direction < 0 then 1
  else 3

def metBefore (base first second : Vec) : Bool :=
  let firstQuarter := quarter base first
  let secondQuarter := quarter base second
  firstQuarter < secondQuarter ||
    (firstQuarter = secondQuarter && 0 < first.cross second)

/-- The arrow to go on with after a direction of travel: the first one that is
met when turning from the way back, counter-clockwise or clockwise. -/
def nextArrow (counterclockwise : Bool) (travel : Vec) : List Arrow → Option Arrow
  | [] => none
  | first :: rest =>
      some <| rest.foldl (fun best arrow =>
        let earlier :=
          if counterclockwise then metBefore travel.neg arrow.direction best.direction
          else metBefore travel.neg best.direction arrow.direction
        if earlier then arrow else best) first

/-! ## Walking

Arrows are kept by the node they start from. An arrow is taken out when it is
walked along. -/

abbrev Departures := Std.HashMap Node (List Arrow)

namespace Departures

def ofArrows (arrows : List Arrow) : Departures :=
  arrows.foldl (fun departures arrow =>
    departures.insert arrow.start (arrow :: departures.getD arrow.start [])) ∅

def leaving (departures : Departures) (node : Node) : List Arrow :=
    departures.getD node []

def contains (departures : Departures) (arrow : Arrow) : Bool :=
  (departures.leaving arrow.start).contains arrow

def take (departures : Departures) (arrow : Arrow) : Departures :=
  departures.insert arrow.start ((departures.leaving arrow.start).erase arrow)

end Departures

/-- The arrows behind a given one until the goal is reached, and the departures
that are left. No walk is longer than the number of arrows. -/
def follow (counterclockwise : Bool) (goal : Node) :
    Nat → Arrow → Departures → List Arrow × Departures
  | 0, _, departures => ([], departures)
  | steps + 1, arrow, departures =>
      if arrow.finish = goal then ([], departures)
      else
        match nextArrow counterclockwise arrow.direction
          (departures.leaving arrow.finish) with
        | none => ([], departures)
        | some next =>
            let (rest, left) :=
                follow counterclockwise goal steps next (departures.take next)
            (next :: rest, left)

structure Walk where
  arrows : List Arrow
  hole : Bool
  deriving Repr, Inhabited

def Arrow.upward (arrow : Arrow) : Vec :=
  if arrow.start.before arrow.finish then arrow.direction else arrow.direction.neg

def Arrow.low (arrow : Arrow) : Node :=
  if arrow.start.before arrow.finish then arrow.start else arrow.finish

def Arrow.high (arrow : Arrow) : Node :=
  if arrow.start.before arrow.finish then arrow.finish else arrow.start

def Arrow.precedes (left right : Arrow) : Bool :=
  left.low.before right.low ||
    (left.low = right.low && 0 ≤ right.upward.cross left.upward)

/-- Each walk begins at the leftmost arrow that is left, the upper one of several.
If the result lies above that arrow the contour is a hole. Outer contours keep to
their part of the result where they touch it; holes keep to their own side. -/
def walks (arrows : List Arrow) : List Walk :=
  let ordered := arrows.mergeSort Arrow.precedes
  let begin (state : List Walk × Departures) (arrow : Arrow) : List Walk × Departures :=
    if state.2.contains arrow then
      let hole := !arrow.start.before arrow.finish
      let (rest, left) :=
        follow (!hole) arrow.start ordered.length arrow (state.2.take arrow)
      (⟨arrow :: rest, hole⟩ :: state.1, left)
    else state
  (ordered.foldl begin ([], .ofArrows ordered)).1.reverse

/-! ## Contours -/

def Walk.corners (walk : Walk) : List Node :=
  let previous := walk.arrows.getLast?.toList ++ walk.arrows
  (previous.zip walk.arrows).filterMap fun (incoming, outgoing) =>
    if incoming.direction.cross outgoing.direction = 0 then none else some outgoing.start

/-- Points that lie on a straight line with their neighbours are pressed out. The
points taken so far are given in reverse. -/
def press (taken points : List Vec) : List Vec :=
  match taken, points with
  | taken, [] => taken.reverse
  | second :: first :: rest, point :: points =>
      if isFlat first second point then press (first :: rest) (point :: points)
      else press (point :: second :: first :: rest) points
  | taken, point :: points => press (point :: taken) points
termination_by (points.length, taken.length)

def pressEnds : Nat → List Vec → List Vec
  | 0, points => points
  | steps + 1, points =>
      match points, points.reverse with
      | first :: second :: _ :: _, last :: beforeLast :: _ =>
          if isFlat last first second then pressEnds steps points.tail
          else if isFlat beforeLast last first then pressEnds steps points.dropLast
          else points
      | _, _ => []

def Walk.ring (walk : Walk) : List Vec :=
  let pressed := press [] (walk.corners.map Node.nearest)
  pressEnds pressed.length pressed

def doubleArea (ring : List Vec) : Nat :=
  let twice : Int :=
      (sides ring).foldl (fun sum (point, next) => sum + point.cross next) 0
  twice.natAbs

/-! ## Shapes -/

def Arrow.isBelow (arrow : Arrow) (node : Node) : Bool :=
  let low := arrow.low
  let high := arrow.high
  low.x * node.scale ≤ node.x * low.scale && node.x * high.scale < high.x * node.scale &&
    0 < arrow.upward.cross
      ⟨node.x * low.scale - low.x * node.scale, node.y * low.scale - low.y * node.scale⟩

def Walk.encloses (walk : Walk) (node : Node) : Bool :=
  (walk.arrows.filter fun arrow => arrow.isBelow node).length % 2 = 1

def Walk.sample (walk : Walk) : Option Node :=
  walk.arrows.head?.map fun arrow => arrow.start.middle arrow.finish

def innermost (outers : List (Nat × Walk × List Vec)) (node : Node) : Option Nat :=
  let around := outers.filter fun (_, walk, _) => walk.encloses node
  let smallest := around.foldl (fun best (number, _, ring) =>
    match best with
    | none => some (number, doubleArea ring)
    | some (_, least) => if doubleArea ring < least
        then some (number, doubleArea ring) else best)
    (none : Option (Nat × Nat))
  smallest.map Prod.fst

def assemble (contours : List Walk) : List (List (List Vec)) :=
  let rings := (contours.map fun walk => (walk, walk.ring)).filter fun (_, ring) =>
      !ring.isEmpty
  let outers := (rings.filter fun (walk, _) => !walk.hole).mapIdx
    fun number (walk, ring) => (number, walk, ring)
  let holes := (rings.filter fun (walk, _) => walk.hole).map fun (walk, ring) =>
    (walk.sample.bind (innermost outers), ring)
  outers.map fun (number, _, ring) =>
    ring :: (holes.filter fun (owner, _) => owner = some number).map Prod.snd

end Photoplot.Overlay
