import Photoplot.Overlay.Lattice

/-! # Corners

A contour counts by the points at which its line turns. All others, repeated
ones among them, are left out when it is put on the lattice. -/

namespace Photoplot.Overlay

/-- Whether a path does not turn aside at a point: it goes on, turns back, or
stands still. -/
def isFlat (previous point next : Vec) : Bool :=
  (point.sub previous).cross (next.sub point) = 0

/-- The points at which a path turns aside, and the point at which it ends. It has
come along one line from a start to its tip. -/
def turns (start tip : Vec) : List Vec → List Vec × Vec
  | [] => ([], tip)
  | point :: points =>
      if isFlat start tip point then turns start point points
      else
        let (corners, last) := turns tip point points
        (tip :: corners, last)

/-- The corners of a contour. Its two ends are looked at once, with the corners
beside them as neighbours: a last point that falls on the first one is flat and
makes the first one flat as well, so that neither of them is a corner. -/
def corners : List Vec → List Vec
  | first :: second :: points =>
      let (turned, last) := turns first second points
      match turned.head?, turned.getLast? with
      | some next, some previous =>
          let closing := if isFlat previous last first then [] else [last]
          let opening := if isFlat last first next then [] else [first]
          turned ++ closing ++ opening
      | _, _ => []
  | _ => []

example :
    corners [⟨0, 0⟩, ⟨1, 0⟩, ⟨2, 0⟩, ⟨2, 2⟩, ⟨0, 2⟩] =
      [⟨2, 0⟩, ⟨2, 2⟩, ⟨0, 2⟩, ⟨0, 0⟩] := by
  decide

/-- A square that is closed twice loses the corner at which it closes. -/
example :
    corners [⟨0, 0⟩, ⟨2, 0⟩, ⟨2, 2⟩, ⟨0, 2⟩, ⟨0, 0⟩] = [⟨2, 0⟩, ⟨2, 2⟩, ⟨0, 2⟩] := by
  decide

def sides (ring : List Vec) : List (Vec × Vec) :=
    ring.zip (ring.tail ++ ring.head?.toList)

end Photoplot.Overlay
