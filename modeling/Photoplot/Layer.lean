import Photoplot.Clearance
import Photoplot.Path.Mirrored
import Photoplot.Plot.Machine
import Photoplot.Source.Program

/-! # Layers

From the text of a layer to its plot, and to the geometry that is handed on. -/

namespace Photoplot

namespace Layer

variable {K : Type} [PlaneScalar K]

def plot (text : Text) : Noted (Except ReadError (Plot K)) := do
  if !text.contains '*' then return .error .noTerminator
  else
    let commands ← Program.ofBlocks (K := K) (Block.scan text)
    if commands.isEmpty then return .error .noCommands
    else return .ok (← Machine.plot commands)

def closingTolerance : K := 1e-3

/-- The plate that a board outline describes: its closed chains or, if there are
none, the box around all of it. -/
def plate (text : Text) : Noted (Option (Plate K)) := do
  match ← plot (K := K) text with
  | .error error =>
      Noted.note (.outlineUnusable error)
      return none
  | .ok plot =>
      let contours := plot.closedCenterlines closingTolerance
      if !contours.isEmpty then return some (.outline contours)
      else if plot.box.isEmpty then return none
      else
        Noted.note .outlineOpen
        return some (.outline [plot.box.corners])

end Layer

/-! ## Geometry -/

structure Options (K : Type) where
  invert : Bool
  /-- The margin around the copper when no plate is given. -/
  margin : K
  /-- The layer is seen from the back. -/
  mirror : Bool
  deriving DecidableEq, Repr

def Options.standard {K : Type} [Scalar K] : Options K := ⟨false, 1.0, false⟩

structure Geometry (K : Type) where
  path : Text
  box : Box K
  inverted : Bool
  deriving DecidableEq, Repr

namespace Geometry

variable {K : Type}

def empty : Geometry K := ⟨[], .empty, false⟩

def isEmpty (geometry : Geometry K) : Bool := geometry.path.isEmpty

def ofPlot [Scalar K] (plot : Plot K) : Geometry K := ⟨plot.path, plot.box, false⟩

def ofClearance [PlaneScalar K] (cutter : Cutter K) (margin : K)
    (plate : Option (Plate K)) (plot : Plot K) : Noted (Geometry K) := do
  let request := ⟨plot.shapes, plate.getD (.bounds plot.box), margin⟩
  let result ← Clearance.compute cutter request
  if result.inverted then return ⟨Path.ofShapes result.shapes, result.box, true⟩
  else return ofPlot plot

def mirrored [Scalar K] (geometry : Geometry K) : Geometry K :=
  { geometry with path := Path.mirror geometry.path geometry.box }

def ofLayer [PlaneScalar K] (cutter : Cutter K) (text : Text) (options : Options K)
    (plate : Option (Plate K)) : Noted (Geometry K) := do
  match ← Layer.plot (K := K) text with
  | .error error =>
      Noted.note (.layerSkipped error)
      return empty
  | .ok plot =>
      let geometry ← if options.invert then ofClearance cutter options.margin plate plot
        else pure (ofPlot plot)
      return if options.mirror then geometry.mirrored else geometry

end Geometry

end Photoplot
