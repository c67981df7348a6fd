import Photoplot.Source.Coordinate

/-! # Commands

What a layer tells the plotter to do, before any of it is carried out. Lengths
are still in the units of the file. -/

namespace Photoplot

inductive ApertureShape (K : Type)
  | circle (diameter : K)
  | rectangle (width height : K)
  | obround (width height : K)
  | polygon (diameter : K) (vertices : Nat) (rotation : K)
  | custom (name : Text) (parameters : List K)
  deriving DecidableEq, Repr

inductive Polarity
  | dark
  | clear
  deriving DecidableEq, Repr

inductive Action
  | draw
  | move
  | flash
  deriving DecidableEq, Repr

structure CoordinateFields (K : Type) where
  x : Option (RawCoordinate K)
  y : Option (RawCoordinate K)
  i : Option (RawCoordinate K)
  j : Option (RawCoordinate K)
  deriving DecidableEq, Repr

namespace CoordinateFields

variable {K : Type}

def none : CoordinateFields K := ⟨.none, .none, .none, .none⟩

def isEmpty (fields : CoordinateFields K) : Bool :=
  fields.x.isNone && fields.y.isNone && fields.i.isNone && fields.j.isNone

end CoordinateFields

/-- An operation without an action repeats the last one. -/
inductive Command (K : Type)
  | format (format : CoordinateFormat)
  | units (units : Units)
  | defineAperture (code : Nat) (shape : ApertureShape K)
  | defineTemplate (name : Text) (body : List Text)
  | select (code : Nat)
  | operation (fields : CoordinateFields K) (action : Option Action)
  | linear
  | clockwise
  | counterclockwise
  | beginRegion
  | endRegion
  | singleQuadrant
  | multiQuadrant
  | polarity (polarity : Polarity)
  | endOfFile
  deriving DecidableEq, Repr

end Photoplot
