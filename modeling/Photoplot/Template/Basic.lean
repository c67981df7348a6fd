import Photoplot.Source.Coordinate
import Photoplot.Template.Expr

/-! # Aperture macros

An aperture macro is a list of statements that is run each time its aperture is
flashed: assignments to variables, and primitives whose fields are expressions.
Positions are relative to the flash point and rotations, in degrees, are about
it. -/

namespace Photoplot.Template

abbrev ExprPair (K : Type) := Expr K × Expr K

inductive Figure (K : Type)
  | circle (diameter : Expr K) (center : ExprPair K) (rotation : Option (Expr K))
  /-- A thick segment with straight ends. -/
  | line (width : Expr K) (start finish : ExprPair K) (rotation : Expr K)
  | outline (vertices : List (ExprPair K)) (rotation : Expr K)
  | rectangle (width height : Expr K) (center : ExprPair K) (rotation : Expr K)
  | polygon (vertices : Expr K) (center : ExprPair K) (diameter rotation : Expr K)
  deriving DecidableEq, Repr

inductive Statement (K : Type)
  | assign (index : Nat) (value : Expr K)
  | draw (exposure : Expr K) (figure : Figure K)
  | unsupported (code : Nat)
  deriving DecidableEq, Repr

end Photoplot.Template

namespace Photoplot

structure Template (K : Type) where
  name : Text
  statements : List (Template.Statement K)
  deriving DecidableEq, Repr

end Photoplot
