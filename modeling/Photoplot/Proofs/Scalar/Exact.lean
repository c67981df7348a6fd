import Mathlib
import Photoplot.Number.Layout
import Photoplot.Scalar.Basic

/-! # Real numbers as scalars

The exact counterpart of the floats that the program runs on. Angles, lengths
and remainders are the functions of analysis, and there are no values without
digits. Only decimal fractions have a written form; those are the values that a
path is made of. -/

namespace Photoplot.Exact

noncomputable def round (x : ℝ) : ℤ := if 0 ≤ x then ⌊x + 1 / 2⌋ else ⌈x - 1 / 2⌉

def HasPlaces (x : ℝ) (places : ℕ) : Prop := ∃ whole : ℤ, x * 10 ^ places = whole

def IsHalfway (x : ℝ) : Prop := ∃ whole : ℤ, x * 10 ^ 6 = whole + 1 / 2

open Classical in
/-- The decimal form with the fewest places; a value that is no decimal fraction
has none. -/
noncomputable def text (x : ℝ) : Text :=
  if decimal : ∃ places, HasPlaces x places then
    let places := Nat.find decimal
    let whole := ⌊x * 10 ^ places⌋
    Layout.signed (decide (whole < 0))
      (Layout.positional (Digits.ofNat whole.natAbs) (-(places : ℤ)))
  else []

noncomputable def ofNumeral? : Numeral → Option ℝ
  | .decimal negative digits exponent =>
      let magnitude : ℝ := digits * 10 ^ exponent
      some (if negative then -magnitude else magnitude)
  | .infinite _ => none
  | .undefined => none

noncomputable instance : PlaneScalar ℝ where
  decidableLT := inferInstance
  decidableLE := inferInstance
  ofInt number := number
  abs x := |x|
  round x := round x
  ceilNat x := ⌈x⌉₊
  isFinite _ := true
  infinity := 0
  ofNumeral? := ofNumeral?
  text := text
  pi := Real.pi
  sin := Real.sin
  cos := Real.cos
  atan2 y x := Complex.arg ⟨x, y⟩
  hypot x y := √(x ^ 2 + y ^ 2)
  modulo x divisor := x - divisor * ⌊x / divisor⌋

/-! The decimal literals of a program stand for the usual numbers. -/

theorem zero_eq : (0.0 : ℝ) = 0 := by norm_num

theorem one_eq : (1.0 : ℝ) = 1 := by norm_num

theorem two_eq : (2.0 : ℝ) = 2 := by norm_num

theorem ten_eq : (10.0 : ℝ) = 10 := by norm_num

end Photoplot.Exact
