import Photoplot.Scalar.Basic

/-! # Expressions of aperture macros

A field of an aperture macro is an arithmetic expression over numbered
variables. Evaluation is strict: an unbound variable, a division by zero or a
value that is not finite anywhere inside leaves the whole without a value. -/

namespace Photoplot

inductive Expr (K : Type)
  | literal (value : K)
  | var (index : Nat)
  | neg (operand : Expr K)
  | add (left right : Expr K)
  | sub (left right : Expr K)
  | mul (left right : Expr K)
  | div (left right : Expr K)
  deriving DecidableEq, Repr

abbrev Bindings (K : Type) := Nat → Option K

namespace Bindings

variable {K : Type}

def none : Bindings K := fun _ => .none

/-- Variable number `n` has the `n`th of the given values, counted from one. -/
def ofList (values : List K) : Bindings K
  | 0 => .none
  | index + 1 => values[index]?

def assign (bindings : Bindings K) (index : Nat) (value : K) : Bindings K :=
  fun other => if other = index then some value else bindings other

example : Bindings.ofList [5, 6] 2 = some 6 := rfl

end Bindings

namespace Expr

variable {K : Type} [Scalar K]

def finite? (value : K) : Option K := if Scalar.isFinite value then some value else none

def eval (bindings : Bindings K) : Expr K → Option K
  | literal value => finite? value
  | var index => (bindings index).bind finite?
  | neg operand => do finite? (-(← operand.eval bindings))
  | add left right => do finite? ((← left.eval bindings) + (← right.eval bindings))
  | sub left right => do finite? ((← left.eval bindings) - (← right.eval bindings))
  | mul left right => do finite? ((← left.eval bindings) * (← right.eval bindings))
  | div left right => do
      let divisor ← right.eval bindings
      if Scalar.Same divisor 0.0 then none
      else finite? ((← left.eval bindings) / divisor)

end Expr

end Photoplot
