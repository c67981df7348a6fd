import Photoplot.Geometry.Arc
import Photoplot.Geometry.Box
import Photoplot.Path.Primitive

/-! # The canvas

What has been plotted, in three forms: path primitives, filled shapes with all
arcs flattened, and the centre lines of connected draws. A region is collected
aside and becomes part of the plot only when it is closed. -/

namespace Photoplot

/-- Everything plotted for a layer. There is one shape for each stroke, flash or
region; the shape of a region holds all of its contours. -/
structure Plot (K : Type) where
  primitives : List (Path.Primitive K)
  shapes : List (Shape K)
  centerlines : List (List (Point K))
  box : Box K
  deriving DecidableEq, Repr

namespace Plot

variable {K : Type}

def empty : Plot K := ⟨[], [], [], .empty⟩

def isEmpty (plot : Plot K) : Bool := plot.primitives.isEmpty

def path [Scalar K] (plot : Plot K) : Text := Path.ofPrimitives plot.primitives

/-- A chain that returns to where it began, as a contour. It takes four points
to enclose something. -/
def closedChain? [PlaneScalar K] (tolerance : K) (chain : List (Point K)) :
    Option (Contour K) :=
  match chain.head?, chain.getLast? with
  | some first, some last =>
      if 4 ≤ chain.length ∧ first.distance last ≤ tolerance
        then some chain.dropLast else none
  | _, _ => none

def closedCenterlines [PlaneScalar K] (plot : Plot K) (tolerance : K) :
    List (Contour K) :=
  plot.centerlines.filterMap (closedChain? tolerance)

end Plot

structure OpenContour (K : Type) where
  points : Contour K
  path : List (Path.Primitive K)
  box : Box K
  deriving DecidableEq, Repr

namespace OpenContour

variable {K : Type} [Scalar K]

def empty : OpenContour K := ⟨[], [], .empty⟩

def startAt (contour : OpenContour K) (start : Point K) : OpenContour K :=
  if contour.points.isEmpty then
    ⟨[start], contour.path ++ [.moveTo start], contour.box.cover start⟩
  else contour

end OpenContour

structure Canvas (K : Type) where
  plot : Plot K
  /-- The centre line of the draws since the last interruption. -/
  chain : List (Point K)
  regionContours : List (Contour K)
  regionPath : List (Path.Primitive K)
  regionBox : Box K
  contour : OpenContour K
  deriving DecidableEq, Repr

namespace Canvas

variable {K : Type} [PlaneScalar K]

def empty : Canvas K := ⟨.empty, [], [], [], .empty, .empty⟩

def Together (left right : Point K) : Prop := left.distance right < degenerateLength

instance (left right : Point K) : Decidable (Together left right) :=
  inferInstanceAs (Decidable (_ < _))

/-! ## Centre lines -/

def breakChain (canvas : Canvas K) : Canvas K :=
  if 2 ≤ canvas.chain.length then
    { canvas with
      chain := []
      plot.centerlines := canvas.plot.centerlines ++ [canvas.chain] }
  else { canvas with chain := [] }

def extendChain (canvas : Canvas K) (start : Point K)
    (points : List (Point K)) : Canvas K :=
  let continued := match canvas.chain.getLast? with
    | some last => decide (Together last start)
    | none => false
  if continued then { canvas with chain := canvas.chain ++ points }
  else { canvas.breakChain with chain := start :: points }

/-! ## Strokes -/

def addObject (canvas : Canvas K) (primitives : List (Path.Primitive K)) (shape : Shape K)
    (extent : List (Point K)) : Canvas K :=
  { canvas with
    plot.primitives := canvas.plot.primitives ++ primitives
    plot.shapes := canvas.plot.shapes ++ [shape]
    plot.box := canvas.plot.box.coverAll extent }

def strokeLine (canvas : Canvas K) (start finish : Point K) (width : K) : Canvas K :=
  match Contour.stroke? start finish width with
  | none => canvas
  | some contour =>
      (canvas.extendChain start [finish]).addObject [.polygon contour] [contour] contour

def circleSubpath (arc : Arc K) (radius : K) (sweep : Bool) : List (Path.Primitive K) :=
  if radius < degenerateLength then []
  else
    let right := arc.pointAt 0.0 radius
    let left := arc.pointAt PlaneScalar.pi radius
    [.moveTo right, .arcTo radius false sweep left,
      .arcTo radius false sweep right, .close]

def bandCorners (arc : Arc K) (width : K) : List (Point K) :=
  let outer := arc.outerRadius width
  let inner := arc.innerRadius width
  [arc.pointAt arc.start outer, arc.pointAt arc.finish outer,
   arc.pointAt arc.finish inner, arc.pointAt arc.start inner]

/-- The outline of a band: along the outer radius, straight in, and back along
the inner radius if there is one. -/
def bandPrimitives (arc : Arc K) (width : K) : List (Path.Primitive K) :=
  let outer := arc.outerRadius width
  let inner := arc.innerRadius width
  if arc.isFullCircle then
    circleSubpath arc outer true ++ circleSubpath arc inner false
  else
    let back : List (Path.Primitive K) :=
      if inner < degenerateLength then []
      else [.arcTo inner arc.isLarge (!arc.isCounterclockwise)
        (arc.pointAt arc.start inner)]
    [.moveTo (arc.pointAt arc.start outer),
     .arcTo outer arc.isLarge arc.isCounterclockwise (arc.pointAt arc.finish outer),
     .lineTo (arc.pointAt arc.finish inner)] ++ back ++ [.close]

def bandExtent (arc : Arc K) (width : K) : List (Point K) :=
  let outer : Arc K := { arc with radius := arc.outerRadius width }
  outer.extremes ++ if arc.isFullCircle then [] else bandCorners arc width

def strokeArc (canvas : Canvas K) (start : Point K) (arc : Arc K)
    (width : K) : Canvas K :=
  (canvas.extendChain start arc.points.tail).addObject
    (bandPrimitives arc width) (arc.band width) (bandExtent arc width)

/-! ## Flashes -/

def stampOne (canvas : Canvas K) (primitive : Path.Primitive K) : Canvas K :=
  match primitive with
  | .circle center radius =>
      if radius ≤ 0.0 then canvas
      else
        canvas.addObject [primitive] [Contour.circle center radius]
          [⟨center.x - radius, center.y - radius⟩, ⟨center.x + radius, center.y + radius⟩]
  | .polygon contour =>
      if contour.length < 3 then canvas
      else canvas.addObject [primitive] [contour] contour
  | _ => canvas

def stamp (canvas : Canvas K) (primitives : List (Path.Primitive K)) : Canvas K :=
  primitives.foldl stampOne canvas.breakChain

/-! ## Regions -/

def discardRegion (canvas : Canvas K) : Canvas K :=
  { canvas with
    regionContours := [], regionPath := [], regionBox := .empty, contour := .empty }

def beginRegion (canvas : Canvas K) : Canvas K := canvas.breakChain.discardRegion

def regionEdge (canvas : Canvas K) (start : Point K) (points : List (Point K))
    (primitives : List (Path.Primitive K)) (extent : List (Point K)) : Canvas K :=
  let contour := canvas.contour.startAt start
  { canvas with
    contour := ⟨contour.points ++ points, contour.path ++ primitives,
      contour.box.coverAll extent⟩ }

def regionLine (canvas : Canvas K) (start finish : Point K) : Canvas K :=
  canvas.regionEdge start [finish] [.lineTo finish] [finish]

def regionArc (canvas : Canvas K) (start finish : Point K) (arc : Arc K) : Canvas K :=
  let edge (large : Bool) (point : Point K) : Path.Primitive K :=
    .arcTo arc.radius large arc.isCounterclockwise point
  let primitives :=
    if arc.isFullCircle then
      [edge false (arc.pointAt (arc.start + arc.sweep / 2.0) arc.radius),
        edge false finish]
    else [edge arc.isLarge finish]
  canvas.regionEdge start arc.points.tail primitives (finish :: arc.extremes)

def openEnded (points : Contour K) : Contour K :=
  match points with
  | first :: _ :: _ =>
      match points.getLast? with
      | some last => if Together first last then points.dropLast else points
      | none => points
  | _ => points

def closeContour (canvas : Canvas K) : Canvas K :=
  let points := openEnded canvas.contour.points
  if points.length < 3 then { canvas with contour := .empty }
  else
    { canvas with
      contour := .empty
      regionContours := canvas.regionContours ++ [points]
      regionPath := canvas.regionPath ++ canvas.contour.path ++ [.close]
      regionBox := canvas.regionBox.join canvas.contour.box }

def endRegion (canvas : Canvas K) : Canvas K :=
  let canvas := canvas.closeContour
  if canvas.regionContours.isEmpty then canvas
  else
    { canvas with
      regionContours := []
      regionPath := []
      regionBox := .empty
      plot.shapes := canvas.plot.shapes ++ [canvas.regionContours]
      plot.primitives := canvas.plot.primitives ++ canvas.regionPath
      plot.box := canvas.plot.box.join canvas.regionBox }

def finish (canvas : Canvas K) : Plot K := canvas.breakChain.plot

end Canvas

end Photoplot
