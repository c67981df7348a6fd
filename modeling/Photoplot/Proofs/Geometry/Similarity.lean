import Photoplot.Proofs.Geometry.Area
import Photoplot.Proofs.Geometry.Distance

/-! # Similar figures

A figure that is turned, scaled and moved has all its distances scaled alike, and its area
by the square of that. Moving adds terms to the edges of a contour that cancel out on the
way around. -/

namespace Photoplot

/-! ## Closed contours -/

namespace Contour

theorem edges_map (move : Point ℝ → Point ℝ) (contour : Contour ℝ) :
    edges (contour.map move) = contour.edges.map (Prod.map move move) := by
  have following : (contour.map move).tail ++ (contour.map move).head?.toList =
      (contour.tail ++ contour.head?.toList).map move := by
    cases contour <;> simp
  rw [edges, following, List.zip_map, edges]

/-- What a quantity gains from vertex to vertex it loses again on the way around. -/
theorem sum_edges_sub (quantity : Point ℝ → ℝ) (contour : Contour ℝ) :
    (contour.edges.map fun edge => quantity edge.2 - quantity edge.1).sum = 0 := by
  have split : ∀ edges : List (Point ℝ × Point ℝ),
      (edges.map fun edge => quantity edge.2 - quantity edge.1).sum =
        ((edges.map Prod.snd).map quantity).sum -
        ((edges.map Prod.fst).map quantity).sum := by
    intro edges
    induction edges with
    | nil => simp
    | cons edge rest induction =>
        simp only [List.map_cons, List.sum_cons, induction]
        ring
  have sides : (contour.tail ++ contour.head?.toList).length = contour.length := by
    cases contour <;> simp
  have around : (contour.tail ++ contour.head?.toList).Perm contour := by
    cases contour with
    | nil => exact .nil
    | cons first rest => exact List.perm_append_singleton first rest
  rw [split, edges, List.map_snd_zip sides.le, List.map_fst_zip sides.ge,
    (around.map quantity).sum_eq, sub_self]

end Contour

/-! ## Similarities -/

/-- A map that turns by the angle of the given cosine and sine about the origin, scales
from there and then moves. A negative scale turns half around. -/
def IsSimilarity (scale : ℝ) (move : Point ℝ → Point ℝ) : Prop :=
  ∃ (cosine sine : ℝ) (origin : Point ℝ), cosine ^ 2 + sine ^ 2 = 1 ∧
    ∀ point, move point =
    ⟨origin.x + (point.x * cosine - point.y * sine) * scale,
      origin.y + (point.x * sine + point.y * cosine) * scale⟩

namespace IsSimilarity

variable {scale : ℝ} {move : Point ℝ → Point ℝ}

theorem distance_eq (similar : IsSimilarity scale move) (first second : Point ℝ) :
    (move first).distance (move second) = |scale| * first.distance second := by
  rcases similar with ⟨cosine, sine, origin, unit, moved⟩
  have square : ((move first).x - (move second).x) ^ 2 +
      ((move first).y - (move second).y) ^ 2 =
      scale ^ 2 * ((first.x - second.x) ^ 2 + (first.y - second.y) ^ 2) := by
    rw [moved, moved]
    linear_combination
      scale ^ 2 * ((first.x - second.x) ^ 2 + (first.y - second.y) ^ 2) * unit
  change √(((move first).x - (move second).x) ^ 2 +
    ((move first).y - (move second).y) ^ 2) =
    |scale| * √((first.x - second.x) ^ 2 + (first.y - second.y) ^ 2)
  rw [square, Real.sqrt_mul (sq_nonneg scale), Real.sqrt_sq_eq_abs]

theorem area_eq (similar : IsSimilarity scale move) (contour : Contour ℝ) :
    Contour.area (contour.map move) = scale ^ 2 * contour.area := by
  rcases similar with ⟨cosine, sine, origin, unit, moved⟩
  let drift (point : Point ℝ) : ℝ :=
      scale * (origin.x * (point.x * sine + point.y * cosine) -
    origin.y * (point.x * cosine - point.y * sine))
  have crossed : ∀ edge : Point ℝ × Point ℝ, Contour.cross (Prod.map move move edge) =
      scale ^ 2 * Contour.cross edge + (drift edge.2 - drift edge.1) := by
    intro edge
    simp only [Contour.cross, Prod.map_fst, Prod.map_snd, moved, drift]
    linear_combination
      scale ^ 2 * (edge.1.x * edge.2.y - edge.2.x * edge.1.y) * unit
  have summed : ((Contour.edges (contour.map move)).map Contour.cross).sum =
      scale ^ 2 * (contour.edges.map Contour.cross).sum := by
    rw [Contour.edges_map, List.map_map]
    simp only [Function.comp_def, crossed, List.sum_map_add, Contour.sum_edges_sub,
      add_zero, List.sum_map_mul_left]
  rw [Contour.area_eq_sum, Contour.area_eq_sum, summed, mul_div_assoc]

theorem sign_area_eq (similar : IsSimilarity scale move) (extended : scale ≠ 0)
    (contour : Contour ℝ) :
    SignType.sign (Contour.area (contour.map move)) = SignType.sign contour.area := by
  rw [similar.area_eq, sign_mul, sign_pos (by positivity), one_mul]

end IsSimilarity

/-- Turning by next to nothing is left out, which is a similarity too. -/
theorem Point.isSimilarity_rotate (degrees : ℝ) :
    IsSimilarity 1 (Point.rotate degrees) := by
  by_cases small : |degrees| < 1e-9
  · refine ⟨1, 0, ⟨0, 0⟩, by norm_num, fun point => ?_⟩
    have still : point.rotate degrees = point := if_pos small
    simp [still]
  · refine ⟨Real.cos (PlaneScalar.ofDegrees degrees),
      Real.sin (PlaneScalar.ofDegrees degrees), ⟨0, 0⟩, Real.cos_sq_add_sin_sq _,
      fun point => ?_⟩
    have turned : point.rotate degrees =
        ⟨point.x * Real.cos (PlaneScalar.ofDegrees degrees) -
            point.y * Real.sin (PlaneScalar.ofDegrees degrees),
          point.x * Real.sin (PlaneScalar.ofDegrees degrees) +
            point.y * Real.cos (PlaneScalar.ofDegrees degrees)⟩ := if_neg small
    simp [turned]

/-- Scaled and moved after it was turned, a figure is similar. -/
theorem IsSimilarity.then_place {turn : Point ℝ → Point ℝ} (similar : IsSimilarity 1 turn)
    (scale : ℝ) (origin : Point ℝ) :
    IsSimilarity scale fun point =>
      ⟨origin.x + (turn point).x * scale, origin.y + (turn point).y * scale⟩ := by
  rcases similar with ⟨cosine, sine, center, unit, turned⟩
  refine ⟨cosine, sine, ⟨origin.x + center.x * scale, origin.y + center.y * scale⟩, unit,
    fun point => ?_⟩
  simp only [turned, Point.mk.injEq]
  constructor <;> ring

end Photoplot
