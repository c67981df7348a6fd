import Photoplot.Geometry.Box
import Photoplot.Geometry.Contour
import Photoplot.Warning

/-! # Clearance

What is left of the board when all traces are cut out of it. The cutting itself
is done by a kernel. Whatever the kernel does, the caller gets usable geometry:
where there is no clearance the traces come back as they were. -/

namespace Photoplot

inductive CutFailure
  | error (error : CutError)
  | crash
  deriving DecidableEq, Repr

abbrev Cutter (K : Type) :=
  (plate traces : List (Shape K)) → Except CutFailure (List (Shape K))

/-- Two ways of overlaying polygons. `difference` holds the places around which
the contours of the first shapes wind and those of the second ones do not;
`resolve` makes separate shapes of the contours of one shape, by parity. -/
structure Overlayer (K : Type) where
  difference : (subject clip : List (Shape K)) → List (Shape K)
  resolve : Shape K → List (Shape K)

namespace Overlayer

variable {K : Type} [Scalar K]

/-- A shape by itself, so that its inner contours are holes. Contours with fewer
than three vertices do not count; a single one is turned counter-clockwise. -/
def normalize (overlayer : Overlayer K) (shape : Shape K) : List (Shape K) :=
  match shape.filter fun contour => decide (3 ≤ contour.length) with
  | [] => []
  | [contour] => [Shape.orient [contour]]
  | contours => overlayer.resolve contours

def cut (overlayer : Overlayer K) : Cutter K := fun plate traces =>
  let subject := plate.flatMap overlayer.normalize
  if subject.isEmpty then .error (.error .noUsableContour)
  else .ok (overlayer.difference subject (traces.flatMap overlayer.normalize))

end Overlayer

inductive Plate (K : Type)
  /-- Closed contours of a board; those inside of another one are cut-outs. -/
  | outline (contours : List (Contour K))
  /-- A rectangle, to which a margin is added on every side. -/
  | bounds (box : Box K)
  deriving DecidableEq, Repr

def Plate.shapes {K : Type} [Scalar K] (margin : K) : Plate K → List (Shape K)
  | .outline contours =>
      let shape := contours.filter fun contour => decide (3 ≤ contour.length)
      if shape.isEmpty then [] else [shape]
  | .bounds box => if box.isEmpty then [] else [[(box.padded margin).corners]]

namespace Clearance

variable {K : Type}

/-! ## Simplification -/

/-- Vertices nearer to each other than this, in millimetres, become one. -/
def tolerance [Scalar K] : K := 1e-3

def near [PlaneScalar K] (left right : Point K) : Bool :=
  decide (left.distance right < tolerance)

def thinAfter [PlaneScalar K] (last : Point K) : List (Point K) → List (Point K)
  | [] => []
  | point :: rest =>
      if near point last then thinAfter last rest else point :: thinAfter point rest

def simplifyContour? [PlaneScalar K] (contour : Contour K) : Option (Contour K) :=
  match contour with
  | [] => none
  | first :: rest =>
      let thinned := thinAfter first rest
      let kept := first :: (thinned.reverse.dropWhile fun last => near first last).reverse
      if 3 ≤ kept.length then some kept else none

def simplifyShape? [PlaneScalar K] : Shape K → Option (Shape K)
  | [] => none
  | outer :: holes => (simplifyContour? outer).map (· :: holes.filterMap simplifyContour?)

def simplify [PlaneScalar K] (shapes : List (Shape K)) : List (Shape K) :=
  shapes.filterMap simplifyShape?

/-! ## Requests -/

structure Request (K : Type) where
  traces : List (Shape K)
  plate : Plate K
  margin : K
  deriving DecidableEq, Repr

def Request.around [Scalar K] (traces : List (Shape K)) (margin : K) : Request K :=
  ⟨traces, .bounds (.ofShapes traces), margin⟩

/-- `inverted` tells a clearance from the traces that stand in for it. -/
structure Result (K : Type) where
  shapes : List (Shape K)
  box : Box K
  inverted : Bool
  deriving DecidableEq, Repr

def unchanged [Scalar K] (traces : List (Shape K)) : Result K :=
  ⟨traces, .ofShapes traces, false⟩

def allFinite [Scalar K] (shapes : List (Shape K)) : Bool :=
  shapes.flatten.flatten.all Point.IsFinite

def refusal? [Scalar K] (request : Request K) : Option Warning :=
  let plate := request.plate.shapes request.margin
  if request.traces.flatten.all List.isEmpty then some .clearanceWithoutTraces
  else if !allFinite request.traces then some .clearanceNotFinite
  else if plate.isEmpty || !allFinite plate then some .clearanceWithoutPlate
  else none

def settle [PlaneScalar K] :
    Except CutFailure (List (Shape K)) → Except Warning (List (Shape K))
  | .error (.error error) => .error (.clearanceFailed error)
  | .error .crash => .error .clearanceCrashed
  | .ok shapes =>
      let simplified := simplify shapes
      if simplified.isEmpty then .error .clearanceEmpty else .ok simplified

def compute [PlaneScalar K] (cutter : Cutter K) (request : Request K) :
    Noted (Result K) := do
  let outcome : Except Warning (List (Shape K)) := match refusal? request with
    | some warning => .error warning
    | none => settle (cutter (request.plate.shapes request.margin) request.traces)
  match outcome with
  | .error warning =>
      Noted.note warning
      return unchanged request.traces
  | .ok shapes => return ⟨shapes, .ofShapes shapes, true⟩

end Clearance

end Photoplot
