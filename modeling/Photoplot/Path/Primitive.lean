import Photoplot.Geometry.Contour
import Photoplot.Path.Command

/-! # Path primitives

What the plotter draws, and the path commands that each primitive spells. -/

namespace Photoplot.Path

/-- One step of a drawing. The sweep of an arc is counter-clockwise when it is
`true`; a filled polygon and a circle are closed subpaths of their own. -/
inductive Primitive (K : Type)
  | moveTo (point : Point K)
  | lineTo (point : Point K)
  | arcTo (radius : K) (large sweep : Bool) (finish : Point K)
  | close
  | polygon (contour : Contour K)
  | circle (center : Point K) (radius : K)
  deriving DecidableEq, Repr

variable {K : Type} [Scalar K]

def flag (set : Bool) : Text := if set then ['1'] else ['0']

def pair (point : Point K) : List Text :=
  [Scalar.coordinate point.x, Scalar.coordinate point.y]

def arcCommand (radius : K) (large sweep : Bool) (finish : Point K) : Command :=
  let radius := Scalar.coordinate radius
  ⟨'A', [radius, radius, ['0'], flag large, flag sweep] ++ pair finish⟩

def contourCommands : Contour K → List Command
  | [] => []
  | first :: rest =>
      ⟨'M', pair first⟩ :: rest.map (fun point => ⟨'L', pair point⟩) ++ [⟨'Z', []⟩]

namespace Primitive

def commands : Primitive K → List Command
  | .moveTo point => [⟨'M', pair point⟩]
  | .lineTo point => [⟨'L', pair point⟩]
  | .arcTo radius large sweep finish => [arcCommand radius large sweep finish]
  | .close => [⟨'Z', []⟩]
  | .polygon contour => contourCommands contour
  | .circle center radius =>
      let right : Point K := ⟨center.x + radius, center.y⟩
      let left : Point K := ⟨center.x - radius, center.y⟩
      [⟨'M', pair right⟩, arcCommand radius false true left,
       arcCommand radius false true right, ⟨'Z', []⟩]

end Primitive

/-- The path text of a drawing. Every primitive is set off from the text before
it by one space. -/
def ofPrimitives (primitives : List (Primitive K)) : Text :=
  let texts := primitives.map fun primitive => Command.spell primitive.commands
  Text.join [' '] (texts.dropWhile List.isEmpty)

def ofShapes (shapes : List (Shape K)) : Text :=
  Command.spell (shapes.flatten.flatMap contourCommands)

end Photoplot.Path
