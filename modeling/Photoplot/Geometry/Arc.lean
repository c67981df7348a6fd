import Photoplot.Geometry.Contour

/-! # Circular arcs

An arc is given by its circle, the angle at which it starts and a signed sweep,
positive counter-clockwise. For filling it is flattened into chords. -/

namespace Photoplot

structure Arc (K : Type) where
  center : Point K
  radius : K
  start : K
  sweep : K
  deriving DecidableEq, Repr

namespace Arc

variable {K : Type} [PlaneScalar K]

def chordAngle : K := PlaneScalar.pi / 90.0

def isFullCircle (arc : Arc K) : Bool :=
  decide (PlaneScalar.turn - 1e-9 ≤ Scalar.abs arc.sweep)

def isLarge (arc : Arc K) : Bool := decide (PlaneScalar.pi < Scalar.abs arc.sweep)

def isCounterclockwise (arc : Arc K) : Bool := decide (0.0 < arc.sweep)

def finish (arc : Arc K) : K := arc.start + arc.sweep

def pointAt (arc : Arc K) (angle radius : K) : Point K := arc.center.polar radius angle

def chordCount (sweep : K) : Nat := max (Scalar.ceilNat (Scalar.abs sweep / chordAngle)) 2

def points (arc : Arc K) : List (Point K) :=
  let count := chordCount arc.sweep
  (List.range (count + 1)).map fun step =>
    arc.center.polar arc.radius
      (arc.start + arc.sweep * Scalar.ofNat step / Scalar.ofNat count)

end Arc

def Contour.circle {K : Type} [PlaneScalar K] (center : Point K)
    (radius : K) : Contour K :=
  (Arc.points ⟨center, radius, 0.0, PlaneScalar.turn⟩).dropLast

namespace Arc

variable {K : Type} [PlaneScalar K]

/-! A draw along an arc covers the band between two radii. -/

def outerRadius (arc : Arc K) (width : K) : K := arc.radius + width / 2.0

def innerRadius (arc : Arc K) (width : K) : K :=
  Scalar.greater (arc.radius - width / 2.0) 0.0

/-- The band of a draw with the given width. A full circle gives a ring, with a
hole if one is left; anything shorter gives one counter-clockwise contour with
straight ends. -/
def band (arc : Arc K) (width : K) : Shape K :=
  let outer := arc.outerRadius width
  let inner := arc.innerRadius width
  if arc.isFullCircle then
    let hole := if degenerateLength < inner
        then [(Contour.circle arc.center inner).reverse] else []
    Contour.circle arc.center outer :: hole
  else
    let contour := points ⟨arc.center, outer, arc.start, arc.sweep⟩ ++
      (points ⟨arc.center, inner, arc.start, arc.sweep⟩).reverse
    [if arc.sweep < 0.0 then contour.reverse else contour]

def containsAngle (arc : Arc K) (angle : K) : Bool :=
  if 0.0 ≤ arc.sweep then
    decide (PlaneScalar.modulo (angle - arc.start) PlaneScalar.turn ≤ arc.sweep)
  else
    decide (PlaneScalar.modulo (arc.start - angle) PlaneScalar.turn ≤ -arc.sweep)

def axisAngles : List K :=
  [0.0, PlaneScalar.pi / 2.0, PlaneScalar.pi, 3.0 * PlaneScalar.pi / 2.0]

def extremes (arc : Arc K) : List (Point K) :=
  (axisAngles.filter fun angle => arc.isFullCircle || arc.containsAngle angle).map
    fun angle => arc.center.polar arc.radius angle

/-! A difference of angles has to be brought into the direction of travel. -/

/-- Whole turns are taken off while the condition holds, at most as many as the
first argument says. -/
def unwind (excessive : K → Bool) (step : K) : Nat → K → K
  | 0, sweep => sweep
  | turns + 1, sweep =>
      if excessive sweep then unwind excessive step turns (sweep - step) else sweep

/-- The sweep that differs from an angle by whole turns and goes in the given
direction: below zero and at least minus one turn clockwise, above zero and at
most one turn counter-clockwise. -/
def directedSweep (turn sweep : K) (clockwise : Bool) : K :=
  let turns := Scalar.ceilNat (Scalar.abs sweep / turn) + 2
  if clockwise then
    let below := unwind (fun sweep => decide (0.0 ≤ sweep)) turn turns sweep
    unwind (fun sweep => decide (sweep < -turn)) (-turn) turns below
  else
    let above := unwind (fun sweep => decide (sweep ≤ 0.0)) (-turn) turns sweep
    unwind (fun sweep => decide (turn < sweep)) turn turns above

end Arc

end Photoplot
