import Photoplot.Proofs.Binary64.RoundTrip
import Photoplot.Proofs.Binary64.Sum
import Photoplot.Geometry.Basic

/-! # Lengths of scalars

What the joining of draws and the closing of chains take for granted: a finite point is at
no distance from itself, and no distance is less than any tolerance. -/

namespace Photoplot

class PlaneScalar.Measured (K : Type) [PlaneScalar K] : Prop where
  not_lt_of_le {low high : K} : low ≤ high → ¬high < low
  isFinite_zero : Scalar.isFinite (0.0 : K) = true
  hypot_sub_self {x y : K} : Scalar.isFinite x = true → Scalar.isFinite y = true →
    PlaneScalar.hypot (x - x) (y - y) = 0.0
  zero_lt_degenerateLength : (0.0 : K) < degenerateLength
  zero_le_thousandth : (0.0 : K) ≤ 1e-3

noncomputable instance : PlaneScalar.Measured ℝ where
  not_lt_of_le := not_lt.mpr
  isFinite_zero := rfl
  hypot_sub_self {x y} _ _ := by
    change √((x - x) ^ 2 + (y - y) ^ 2) = 0.0
    norm_num
  zero_lt_degenerateLength := by norm_num [degenerateLength]
  zero_le_thousandth := by norm_num

namespace Binary64

open Float.Model (UnpackedFloat)

/-- The difference is exact, and zero has no sign then. -/
theorem sub_self {x : Float} (finite : x.isFinite = true) : x - x = 0.0 := by
  have finite : x.toModel.unpack.isFinite = true := finite
  have zero : (0.0 : Float).toModel.unpack = .zero .positive := rfl
  apply eq_of_unpack_eq
  rw [unpack_sub, zero]
  cases unpacked : x.toModel.unpack with
  | notANumber =>
      rw [unpacked] at finite
      cases finite
  | infinity sign =>
      rw [unpacked] at finite
      cases finite
  | zero sign => cases sign <;> exact unpack_pack_zero .positive
  | finite sign mantissa place positive =>
      simp only [UnpackedFloat.sub, UnpackedFloat.normalize, Int.sub_self]
      exact unpack_pack_zero .positive

end Binary64

instance : PlaneScalar.Measured Float where
  not_lt_of_le ordered := Binary64.not_lt_of_le ordered
  isFinite_zero := by decide
  hypot_sub_self finite finite' := by
    have none : Binary64.hypot 0.0 0.0 = 0.0 := by decide
    rw [Binary64.sub_self finite, Binary64.sub_self finite']
    exact none
  zero_lt_degenerateLength := by decide
  zero_le_thousandth := by decide

namespace Point

variable {K : Type} [PlaneScalar K] [PlaneScalar.Measured K]

open PlaneScalar (Measured)

theorem distance_self_of_isFinite {point : Point K} (finite : point.IsFinite = true) :
    point.distance point = 0.0 := by
  rw [IsFinite, Bool.and_eq_true] at finite
  exact Measured.hypot_sub_self finite.1 finite.2

theorem isFinite_origin : (origin : Point K).IsFinite = true := by
  simp [origin, IsFinite, Measured.isFinite_zero]

end Point

end Photoplot
