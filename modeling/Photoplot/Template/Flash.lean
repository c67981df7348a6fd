import Photoplot.Geometry.Contour
import Photoplot.Path.Primitive
import Photoplot.Template.Basic
import Photoplot.Warning

/-! # Flashing aperture macros

The statements are run in order. Every primitive is evaluated with the variables
as they are then, rotated about the flash point, scaled to millimetres and moved
into place. A primitive that cannot be evaluated is noted and left out. -/

namespace Photoplot.Template

variable {K : Type} [PlaneScalar K]

inductive Local (K : Type)
  | circle (center : Point K) (radius : K)
  | polygon (contour : Contour K)
  deriving DecidableEq, Repr

def evalPair (bindings : Bindings K) (pair : ExprPair K) : Option (Point K) := do
  return ⟨← pair.1.eval bindings, ← pair.2.eval bindings⟩

def openOutline (vertices : Contour K) : Contour K :=
  match vertices with
  | first :: _ :: _ =>
      match vertices.getLast? with
      | some last => if first.Same last then vertices.dropLast else vertices
      | none => vertices
  | _ => vertices

def rotated (contour : Contour K) (rotation : K) : Local K :=
  .polygon (contour.map (Point.rotate rotation))

def Figure.eval (bindings : Bindings K) : Figure K → Option (Option (Local K))
  | circle diameter center rotation => do
      let radius := Scalar.abs (← diameter.eval bindings) / 2.0
      let rotation ← match rotation with
        | some rotation => rotation.eval bindings
        | none => some 0.0
      let center ← evalPair bindings center
      return if 0.0 < radius then some (.circle (center.rotate rotation) radius) else none
  | line width start finish rotation => do
      let width ← width.eval bindings
      let start ← evalPair bindings start
      let finish ← evalPair bindings finish
      let rotation ← rotation.eval bindings
      return (Contour.stroke? start finish width).map fun contour =>
        rotated contour rotation
  | rectangle width height center rotation => do
      let width ← width.eval bindings
      let height ← height.eval bindings
      let center ← evalPair bindings center
      let rotation ← rotation.eval bindings
      return if 0.0 < width ∧ 0.0 < height then
        some (rotated (Contour.rectangle center width height) rotation) else none
  | outline vertices rotation => do
      let vertices ← vertices.mapM (evalPair bindings)
      let rotation ← rotation.eval bindings
      let contour := openOutline vertices
      return if 3 ≤ contour.length then some (rotated contour rotation) else none
  | polygon vertices center diameter rotation => do
      let count := Scalar.round (← vertices.eval bindings)
      if 3.0 ≤ count ∧ count ≤ 12.0 then
        let center ← evalPair bindings center
        let diameter ← diameter.eval bindings
        let rotation ← rotation.eval bindings
        let contour := Contour.regular center diameter (Scalar.ceilNat count) 0.0
        return if 0.0 < diameter then some (rotated contour rotation) else none
      else none

/-- What a primitive contributes. The outer option is empty when a field has no
value, the inner one when the primitive is off or has no extent. -/
def evalPrimitive (bindings : Bindings K) (exposure : Expr K) (figure : Figure K) :
    Option (Option (Local K)) := do
  if (← exposure.eval bindings) < 0.5 then return none
  else figure.eval bindings

def Local.place (scale : K) (origin : Point K) : Local K → Path.Primitive K
  | circle center radius => .circle (moved center) (radius * scale)
  | polygon contour => .polygon (contour.map moved)
where
  moved (point : Point K) : Point K :=
    ⟨origin.x + point.x * scale, origin.y + point.y * scale⟩

/-- An assignment that cannot be evaluated is noted; it changes nothing. -/
def Statement.bind (name : Text) (bindings : Bindings K) :
    Statement K → Noted (Bindings K)
  | assign index value => do
      match value.eval bindings with
      | some value => return bindings.assign index value
      | none =>
          Noted.note (.variableUnresolved name index)
          return bindings
  | _ => return bindings

def Statement.primitives (name : Text) (scale : K) (origin : Point K)
    (bindings : Bindings K) :
    Statement K → Noted (List (Path.Primitive K))
  | draw exposure figure => do
      match evalPrimitive bindings exposure figure with
      | some (some drawn) => return [drawn.place scale origin]
      | some none => return []
      | none =>
          Noted.note (.primitiveUnresolved name)
          return []
  | _ => return []

def run (name : Text) (scale : K) (origin : Point K) :
    Bindings K → List (Statement K) → Noted (List (Path.Primitive K))
  | _, [] => return []
  | bindings, statement :: rest => do
      let next ← statement.bind name bindings
      let drawn ← statement.primitives name scale origin bindings
      let others ← run name scale origin next rest
      return drawn ++ others

/-- The primitives of one flash. The parameters are the first variables; `scale`
is one unit of the file in millimetres. -/
def flash (template : Template K) (parameters : List K) (scale : K) (origin : Point K) :
    Noted (List (Path.Primitive K)) :=
  run template.name scale origin (.ofList parameters) template.statements

end Photoplot.Template
