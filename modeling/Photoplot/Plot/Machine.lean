import Photoplot.Plot.Aperture
import Photoplot.Plot.Canvas
import Photoplot.Plot.Decoder
import Photoplot.Template.Flash
import Photoplot.Template.Reader

/-! # The plotting machine

Commands are carried out one after the other on a state that consists of the
modes in force, the tools defined so far and the canvas. -/

namespace Photoplot

inductive Interpolation
  | linear
  | clockwise
  | counterclockwise
  deriving DecidableEq, Repr

inductive Quadrants
  | single
  | multi
  deriving DecidableEq, Repr

structure Modes (K : Type) where
  /-- The current point in millimetres. -/
  position : Point K
  /-- Whether a coordinate was given on the axis. The first one is a position even
  when coordinates are steps. -/
  xSeen : Bool
  ySeen : Bool
  aperture : Option Nat
  interpolation : Interpolation
  quadrants : Quadrants
  regionOpen : Bool
  action : Action
  polarity : Polarity
  decoder : Decoder
  ended : Bool
  deriving DecidableEq, Repr

namespace Modes

variable {K : Type} [Scalar K]

def start : Modes K :=
  ⟨.origin, false, false, none, .linear, .multi, false, .move, .dark, .start, false⟩

def target (decoder : Decoder) (axis : Axis) (current : K) (seen : Bool) :
    Option (RawCoordinate K) → K
  | none => current
  | some raw =>
      let value := decoder.decode axis raw
      if decoder.format.addressing = .incremental ∧ seen then current + value else value

def advance (modes : Modes K) (fields : CoordinateFields K) : Modes K :=
  { modes with
    position :=
      ⟨target modes.decoder .x modes.position.x modes.xSeen fields.x,
       target modes.decoder .y modes.position.y modes.ySeen fields.y⟩
    xSeen := modes.xSeen || fields.x.isSome
    ySeen := modes.ySeen || fields.y.isSome }

def offsets (modes : Modes K) (fields : CoordinateFields K) : Point K :=
  ⟨(fields.i.map (modes.decoder.decode .x)).getD 0.0,
   (fields.j.map (modes.decoder.decode .y)).getD 0.0⟩

end Modes

namespace Arc

variable {K : Type} [PlaneScalar K]

def angleFrom (center point : Point K) : K :=
  PlaneScalar.atan2 (point.y - center.y) (point.x - center.x)

def signs : List (K × K) := [(1.0, 1.0), (1.0, -1.0), (-1.0, 1.0), (-1.0, -1.0)]

/-- A centre for offsets without signs, with the difference of its distances to
the two end points, if the arc about it goes a quarter turn at most. -/
def quadrantCandidate? (start finish : Point K) (i j : K) (clockwise : Bool)
    (sign : K × K) :
    Option (Point K × K) :=
  let center : Point K := ⟨start.x + sign.1 * i, start.y + sign.2 * j⟩
  let sweep := directedSweep PlaneScalar.turn
    (angleFrom center finish - angleFrom center start) clockwise
  if PlaneScalar.pi / 2.0 + 1e-6 < Scalar.abs sweep then none
  else some (center, Scalar.abs (start.distance center - finish.distance center))

def betterCandidate (best : Option (Point K × K)) (candidate : Point K × K) :
    Option (Point K × K) :=
  match best with
  | none => some candidate
  | some (center, mismatch) =>
      if candidate.2 < mismatch then some candidate else some (center, mismatch)

def quadrantCenter? (start finish : Point K) (i j : K) (clockwise : Bool) :
    Option (Point K) :=
  let candidates := signs.filterMap (quadrantCandidate? start finish i j clockwise)
  (candidates.foldl betterCandidate none).map Prod.fst

/-- The arc of a circular draw. There is none when its radius is zero or, with
single quadrants, when no centre fits. Equal end points mean a full circle. -/
def resolve? (quadrants : Quadrants) (clockwise : Bool) (start finish offset : Point K) :
    Option (Arc K) := do
  let closed :=
      decide (PlaneScalar.hypot (finish.x - start.x) (finish.y - start.y) < 1e-9)
  let center : Point K ← match quadrants with
    | .multi => some ⟨start.x + offset.x, start.y + offset.y⟩
    | .single =>
        if closed then none
        else
          quadrantCenter? start finish (Scalar.abs offset.x) (Scalar.abs offset.y)
            clockwise
  let radius := start.distance center
  if radius < 1e-9 then none
  else
    let angle := angleFrom center start
    let sweep :=
      if closed then (if clockwise then -PlaneScalar.turn else PlaneScalar.turn)
      else directedSweep PlaneScalar.turn (angleFrom center finish - angle) clockwise
    return ⟨center, radius, angle, sweep⟩

end Arc

structure Machine (K : Type) where
  modes : Modes K
  apertures : Apertures K
  templates : Table Text (Template K)
  canvas : Canvas K
  deriving DecidableEq, Repr

namespace Machine

variable {K : Type} [PlaneScalar K]

def start : Machine K := ⟨.start, .empty, .empty, .empty⟩

/-! ## Draws -/

def arc? (modes : Modes K) (origin : Point K) (fields : CoordinateFields K) :
    Option (Arc K) :=
  let resolve (clockwise : Bool) :=
    Arc.resolve? modes.quadrants clockwise origin modes.position (modes.offsets fields)
  match modes.interpolation with
  | .linear => none
  | .clockwise => resolve true
  | .counterclockwise => resolve false

def draw (machine : Machine K) (origin : Point K) (fields : CoordinateFields K) :
    Noted (Machine K) := do
  let modes := machine.modes
  let arc := arc? modes origin fields
  if modes.regionOpen then
    return { machine with
      canvas := match arc with
        | some arc => machine.canvas.regionArc origin modes.position arc
        | none => machine.canvas.regionLine origin modes.position }
  else if modes.polarity = .clear then return machine
  else
    let width ← machine.apertures.strokeWidth modes.aperture
    return { machine with
      canvas := match arc with
        | some arc => machine.canvas.strokeArc origin arc width
        | none => machine.canvas.strokeLine origin modes.position width }

/-! ## Flashes -/

def defaultPad (center : Point K) : List (Path.Primitive K) :=
  [.circle center (Apertures.defaultWidth / 2.0)]

def pad (machine : Machine K) (aperture : Aperture K) (center : Point K) :
    Noted (List (Path.Primitive K)) := do
  match aperture.shape with
  | .circle diameter => return [.circle center (diameter / 2.0)]
  | .rectangle width height => return [.polygon (Contour.rectangle center width height)]
  | .obround width height => return [.polygon (Contour.obround center width height)]
  | .polygon diameter vertices rotation =>
      return [.polygon (Contour.regular center diameter vertices rotation)]
  | .custom name parameters =>
      match machine.templates.find? name with
      | some template => template.flash parameters aperture.unit center
      | none =>
          Noted.note (.flashUndefinedTemplate name)
          return defaultPad center

def selectedPad (machine : Machine K) (center : Point K) :
    Noted (List (Path.Primitive K)) := do
  match machine.modes.aperture with
  | none =>
      Noted.note .flashWithoutAperture
      return defaultPad center
  | some code =>
      match machine.apertures.find? code with
      | some aperture => machine.pad aperture center
      | none =>
          Noted.note (.flashUndefined code)
          return defaultPad center

def flash (machine : Machine K) : Noted (Machine K) := do
  if machine.modes.polarity = .clear then return machine
  else
    let primitives ← machine.selectedPad machine.modes.position
    return { machine with canvas := machine.canvas.stamp primitives }

/-! ## Commands -/

def operate (machine : Machine K) (fields : CoordinateFields K) (action : Option Action) :
    Noted (Machine K) := do
  let origin := machine.modes.position
  let action := action.getD machine.modes.action
  let moved : Machine K :=
    { machine with modes := { machine.modes.advance fields with action } }
  match action with
  | .move =>
      return { moved with
        canvas :=
          if moved.modes.regionOpen then moved.canvas.closeContour
          else moved.canvas.breakChain }
  | .draw => moved.draw origin fields
  | .flash =>
      if moved.modes.regionOpen then
        Noted.note .flashInRegion
        return moved
      else moved.flash

def beginRegion (machine : Machine K) : Noted (Machine K) := do
  if machine.modes.regionOpen then Noted.note .regionReopened
  return { machine with
    modes.regionOpen := true
    canvas := machine.canvas.beginRegion }

def endRegion (machine : Machine K) : Noted (Machine K) := do
  if machine.modes.regionOpen then
    return { machine with
      modes.regionOpen := false
      canvas :=
        if machine.modes.polarity = .clear then machine.canvas.discardRegion
        else machine.canvas.endRegion }
  else
    Noted.note .regionNotOpen
    return machine

def execute (machine : Machine K) : Command K → Noted (Machine K)
  | .format format => do
      let decoder ← machine.modes.decoder.setFormat format
      return { machine with modes.decoder := decoder }
  | .units units => do
      let decoder ← machine.modes.decoder.setUnits units
      return { machine with modes.decoder := decoder }
  | .defineAperture code shape => do
      let apertures ← machine.apertures.define code shape machine.modes.decoder.units
      return { machine with apertures }
  | .defineTemplate name body => do
      let template ← Template.read name body
      return { machine with templates := machine.templates.insert name template }
  | .select code => do
      if !machine.apertures.contains code then Noted.note (.selectUndefined code)
      return { machine with modes.aperture := some code }
  | .operation fields action => machine.operate fields action
  | .linear => return { machine with modes.interpolation := .linear }
  | .clockwise => return { machine with modes.interpolation := .clockwise }
  | .counterclockwise => return { machine with modes.interpolation := .counterclockwise }
  | .beginRegion => machine.beginRegion
  | .endRegion => machine.endRegion
  | .singleQuadrant => return { machine with modes.quadrants := .single }
  | .multiQuadrant => return { machine with modes.quadrants := .multi }
  | .polarity polarity => return { machine with modes.polarity := polarity }
  | .endOfFile => return { machine with modes.ended := true }

def step (machine : Machine K) (command : Command K) : Noted (Machine K) :=
  if machine.modes.ended then return machine else machine.execute command

def run (machine : Machine K) (commands : List (Command K)) : Noted (Machine K) :=
  commands.foldlM step machine

def finish (machine : Machine K) : Noted (Plot K) := do
  if machine.modes.regionOpen then
    Noted.note .regionLeftOpen
    return machine.canvas.discardRegion.finish
  else return machine.canvas.finish

def plot (commands : List (Command K)) : Noted (Plot K) := do
  (← start.run commands).finish

end Machine

end Photoplot
