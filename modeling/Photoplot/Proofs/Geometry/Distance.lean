import Photoplot.Proofs.Scalar.Exact
import Photoplot.Geometry.Basic

/-! # Exact distances

Measured exactly, the distance of two points is the norm of the complex number between
them. -/

namespace Photoplot

namespace Point

theorem distance_eq_norm (left right : Point ℝ) :
    left.distance right = ‖(⟨left.x - right.x, left.y - right.y⟩ : ℂ)‖ := by
  rw [Complex.norm_eq_sqrt_sq_add_sq]
  rfl

theorem distance_along (left right : ℝ) :
    (⟨left, 0⟩ : Point ℝ).distance ⟨right, 0⟩ = |left - right| := by
  change √((left - right) ^ 2 + (0 - 0) ^ 2) = _
  rw [sub_self, zero_pow two_ne_zero, add_zero, Real.sqrt_sq_eq_abs]

theorem distance_comm (left right : Point ℝ) :
    left.distance right = right.distance left := by
  have opposite : (⟨left.x - right.x, left.y - right.y⟩ : ℂ) =
      -⟨right.x - left.x, right.y - left.y⟩ := by
    apply Complex.ext <;> simp
  rw [distance_eq_norm, distance_eq_norm, opposite, norm_neg]

theorem distance_self (point : Point ℝ) : point.distance point = 0 := by
  rw [distance_eq_norm, sub_self, sub_self]
  exact norm_zero

theorem distance_triangle (first middle last : Point ℝ) :
    first.distance last ≤ first.distance middle + middle.distance last := by
  have sum : (⟨first.x - last.x, first.y - last.y⟩ : ℂ) =
      ⟨first.x - middle.x, first.y - middle.y⟩ +
      ⟨middle.x - last.x, middle.y - last.y⟩ := by
    apply Complex.ext <;> simp
  rw [distance_eq_norm, distance_eq_norm, distance_eq_norm, sum]
  exact norm_add_le _ _

theorem distance_polar (center : Point ℝ) (radius other angle : ℝ) :
    (center.polar radius angle).distance (center.polar other angle) =
      |radius - other| := by
  have square :
      (center.x + radius * Real.cos angle - (center.x + other * Real.cos angle)) ^ 2 +
      (center.y + radius * Real.sin angle - (center.y + other * Real.sin angle)) ^ 2 =
        (radius - other) ^ 2 * (Real.sin angle ^ 2 + Real.cos angle ^ 2) := by
    ring
  change √((center.x + radius * Real.cos angle -
    (center.x + other * Real.cos angle)) ^ 2 +
    (center.y + radius * Real.sin angle - (center.y + other * Real.sin angle)) ^ 2) = _
  rw [square, Real.sin_sq_add_cos_sq, mul_one, Real.sqrt_sq_eq_abs]

end Point

end Photoplot
