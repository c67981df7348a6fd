import Photoplot.Json.Writer
import Photoplot.Layer
import Photoplot.Number.Layout
import Photoplot.Scalar.Binary64

/-! # Geometry as a JSON document

A layer's geometry is an object of its path, its box and the mark of a
clearance. Lengths have six decimals at most. -/

namespace Photoplot

open Json (Document)

def Box.document (box : Box Float) : Document :=
  let length (value : Float) : Document :=
    .scalar (Layout.document (Scalar.roundPlaces 6 value))
  .object
    [("x".toList, length box.left), ("y".toList, length box.bottom),
     ("width".toList, length box.width), ("height".toList, length box.height)]

def Geometry.document (geometry : Geometry Float) : Document :=
  .object
    [("path".toList, .string geometry.path), ("bbox".toList, geometry.box.document),
     ("inverted".toList, .bool geometry.inverted)]

def Geometry.json (geometry : Geometry Float) (pretty : Bool) : Text :=
  if pretty then geometry.document.indented 0 else geometry.document.compact

end Photoplot
