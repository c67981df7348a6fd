import Photoplot.Proofs.Plot.Bounds

/-! # The extent of standard pads

A round pad, a rectangle and an obround fill the box around their centre that is as wide
and as high as they are: they lie in it, and they reach each side of it. An obround has
two forms, for the two ways in which it can be longer; in either one the caps are moved
outwards by just as much as its length exceeds its thickness. -/

namespace Photoplot

/-! ## Boxes that are filled -/

/-- Another span that holds the values and has its bounds among them is the same one. -/
theorem Span.Frames.eq_of_mem {span other : Span ℝ} {values : List ℝ}
    (frames : span.Frames values) (lowest : other.low ∈ values)
    (highest : other.high ∈ values)
    (held : ∀ value ∈ values, other.Holds value) : span = other := by
  have lowHeld := frames.holds other.low lowest le_rfl
  have highHeld := frames.holds other.high highest le_rfl
  have bounded := frames.bounded other fun value member _ => held value member
  cases other with
  | none => exact (held _ lowest).elim
  | between low high =>
      cases span with
      | none => exact lowHeld.elim
      | between first last =>
          rcases bounded with impossible | ⟨firstHeld, lastHeld⟩
          · cases impossible
          · have sameLow : first = low := le_antisymm lowHeld.1 firstHeld.1
            have sameHigh : last = high := le_antisymm lastHeld.2 highHeld.2
            rw [sameLow, sameHigh]

namespace Box

def around {K : Type} [Scalar K] (center : Point K) (width height : K) : Box K :=
  ⟨.between (center.x - width / 2.0) (center.x + width / 2.0),
    .between (center.y - height / 2.0) (center.y + height / 2.0)⟩

structure IsTouched {K : Type} [Scalar K] (box : Box K)
    (points : List (Point K)) : Prop where
  left : ∃ point ∈ points, point.x = box.x.low
  right : ∃ point ∈ points, point.x = box.x.high
  bottom : ∃ point ∈ points, point.y = box.y.low
  top : ∃ point ∈ points, point.y = box.y.high

variable {box : Box ℝ} {points : List (Point ℝ)}

/-- A box that holds the points and is touched by them on each side is the least one. -/
theorem coverAll_eq_of_touched (held : ∀ point ∈ points, box.Holds point)
    (touched : box.IsTouched points) : empty.coverAll points = box := by
  have frames := frames_empty.coverAll points
  rw [List.nil_append] at frames
  have x : (empty.coverAll points).x = box.x :=
    frames.x.eq_of_mem (List.mem_map.mpr touched.left) (List.mem_map.mpr touched.right)
      (List.forall_mem_map.mpr fun point member => (held point member).1)
  have y : (empty.coverAll points).y = box.y :=
    frames.y.eq_of_mem (List.mem_map.mpr touched.bottom) (List.mem_map.mpr touched.top)
      (List.forall_mem_map.mpr fun point member => (held point member).2)
  exact congrArg₂ Box.mk x y

theorem holds_around {center point : Point ℝ} {width height : ℝ}
    (across : |point.x - center.x| ≤ width / 2) (up : |point.y - center.y| ≤ height / 2) :
    (around center width height).Holds point := by
  rw [abs_le] at across up
  simp only [around, Exact.two_eq]
  refine ⟨⟨?_, ?_⟩, ?_, ?_⟩ <;> linarith

end Box

namespace Path.Primitive

structure Fills (primitive : Path.Primitive ℝ) (box : Box ℝ) : Prop where
  held : ∀ point ∈ primitive.extent, box.Holds point
  touched : box.IsTouched primitive.extent

/-! ## Round pads and rectangles -/

variable {center : Point ℝ} {width height : ℝ}

theorem fills_circle {diameter : ℝ} (nonneg : 0 ≤ diameter) :
    (circle center (diameter / 2.0)).Fills (.around center diameter diameter) where
  held := by
    have half : |diameter / 2| ≤ diameter / 2 := (abs_of_nonneg (by linarith)).le
    simp only [extent, Exact.two_eq, List.forall_mem_cons, List.not_mem_nil]
    refine ⟨Box.holds_around ?_ ?_, Box.holds_around ?_ ?_, by simp⟩ <;>
      simpa only [sub_sub_cancel_left, add_sub_cancel_left, abs_neg]
  touched := by constructor <;> simp [extent, Box.around, Span.low, Span.high]

theorem fills_rectangle (wide : 0 ≤ width) (high : 0 ≤ height) :
    (polygon (Contour.rectangle center width height)).Fills (.around center width height)
      where
  held := by
    have halfWidth : |width / 2| ≤ width / 2 := (abs_of_nonneg (by linarith)).le
    have halfHeight : |height / 2| ≤ height / 2 := (abs_of_nonneg (by linarith)).le
    simp only [extent, Contour.rectangle, Exact.two_eq, List.forall_mem_cons,
      List.not_mem_nil]
    refine ⟨Box.holds_around ?_ ?_, Box.holds_around ?_ ?_, Box.holds_around ?_ ?_,
        Box.holds_around ?_ ?_, by simp⟩ <;>
      simpa only [sub_sub_cancel_left, add_sub_cancel_left, abs_neg]
  touched := by
    constructor <;> simp [extent, Contour.rectangle, Box.around, Span.low, Span.high]

end Path.Primitive

/-! ## Obrounds -/

theorem Point.polar_x (center : Point ℝ) (radius angle : ℝ) :
    (center.polar radius angle).x = center.x + radius * Real.cos angle := rfl

theorem Point.polar_y (center : Point ℝ) (radius angle : ℝ) :
    (center.polar radius angle).y = center.y + radius * Real.sin angle := rfl

namespace Contour

noncomputable def halfCircle (center : Point ℝ) (radius base : ℝ) : List (Point ℝ) :=
  (List.range 17).map fun step : ℕ => center.polar radius (base + Real.pi * step / 16)

theorem cap_eq_halfCircle {center : Point ℝ} {radius : ℝ} (base : ℝ)
    {place : ℝ → ℝ → Point ℝ} (placed : ∀ cosine sine,
      place cosine sine = ⟨center.x + radius * cosine, center.y + radius * sine⟩) :
    cap base place = halfCircle center radius base := by
  have sixteen : (16.0 : ℝ) = 16 := by norm_num
  simp only [cap, placed, Arc.ofNat_eq_cast, sixteen]
  rfl

theorem mem_halfCircle (center : Point ℝ) (radius : ℝ) {base : ℝ} (step : ℕ) (angle : ℝ)
    (isStep : step < 17) (isAngle : base + Real.pi * step / 16 = angle) :
    center.polar radius angle ∈ halfCircle center radius base :=
  List.mem_map.mpr ⟨step, List.mem_range.mpr isStep, by rw [isAngle]⟩

theorem exists_angle_of_mem_halfCircle {center vertex : Point ℝ} {radius base : ℝ}
    (member : vertex ∈ halfCircle center radius base) :
    ∃ angle, vertex = center.polar radius angle := by
  rcases List.mem_map.mp member with ⟨step, -, rfl⟩
  exact ⟨_, rfl⟩

variable {center : Point ℝ} {width height : ℝ}

theorem obround_of_le (wide : height ≤ width) :
    obround center width height =
      halfCircle ⟨center.x + (width / 2 - height / 2), center.y⟩
        (height / 2) (-Real.pi / 2) ++
        halfCircle ⟨center.x + -(width / 2 - height / 2), center.y⟩ (height / 2)
          (Real.pi / 2) := by
  simp only [obround, if_pos wide, Exact.two_eq]
  exact congrArg₂ (· ++ ·) (cap_eq_halfCircle _ fun _ _ => rfl)
    (cap_eq_halfCircle _ fun _ _ => rfl)

theorem obround_of_lt (tall : width < height) :
    obround center width height =
      halfCircle ⟨center.x, center.y + (height / 2 - width / 2)⟩ (width / 2) 0 ++
        halfCircle ⟨center.x, center.y + -(height / 2 - width / 2)⟩
          (width / 2) Real.pi := by
  simp only [obround, if_neg (not_le.mpr tall), Exact.two_eq, Exact.zero_eq]
  exact congrArg₂ (· ++ ·) (cap_eq_halfCircle _ fun _ _ => rfl)
    (cap_eq_halfCircle _ fun _ _ => rfl)

theorem length_obround (center : Point ℝ) (width height : ℝ) :
    (obround center width height).length = 34 := by
  rcases le_or_gt height width with wide | tall
  · rw [obround_of_le wide]
    simp [halfCircle]
  · rw [obround_of_lt tall]
    simp [halfCircle]

end Contour

namespace Box

/-- Half circles lie in the box if their centres are nearer to its middle than the sides
are, by the radius at least. -/
theorem holds_halfCircles {center first second : Point ℝ}
    {width height radius base other : ℝ} (nonneg : 0 ≤ radius)
    (across : ∀ middle ∈ [first, second], |middle.x - center.x| + radius ≤ width / 2)
    (up : ∀ middle ∈ [first, second], |middle.y - center.y| + radius ≤ height / 2) :
    ∀ vertex ∈
      Contour.halfCircle first radius base ++ Contour.halfCircle second radius other,
      (around center width height).Holds vertex := by
  have reach (offset part : ℝ) (bounded : |part| ≤ 1) :
      |offset + radius * part| ≤ |offset| + radius := by
    refine (abs_add_le _ _).trans ?_
    rw [abs_mul, abs_of_nonneg nonneg]
    have shorter := mul_le_of_le_one_right nonneg bounded
    linarith
  intro vertex member
  have onCircle : ∃ middle ∈ [first, second], ∃ angle, vertex =
      middle.polar radius angle := by
    rcases List.mem_append.mp member with onFirst | onSecond
    · exact ⟨first, by simp, Contour.exists_angle_of_mem_halfCircle onFirst⟩
    · exact ⟨second, by simp, Contour.exists_angle_of_mem_halfCircle onSecond⟩
  obtain ⟨middle, isMiddle, angle, rfl⟩ := onCircle
  apply holds_around
  · rw [Point.polar_x, add_sub_right_comm]
    exact (reach _ _ (Real.abs_cos_le_one angle)).trans (across middle isMiddle)
  · rw [Point.polar_y, add_sub_right_comm]
    exact (reach _ _ (Real.abs_sin_le_one angle)).trans (up middle isMiddle)

end Box

namespace Path.Primitive

open Contour (mem_halfCircle)

variable {center : Point ℝ} {width height : ℝ}

theorem fills_obround_of_le (high : 0 ≤ height) (wide : height ≤ width) :
    (polygon (Contour.obround center width height)).Fills
      (.around center width height) := by
  have straight : |width / 2 - height / 2| = width / 2 - height / 2 :=
    abs_of_nonneg (by linarith)
  have backwards : |height / 2 - width / 2| = width / 2 - height / 2 :=
    (abs_sub_comm _ _).trans straight
  constructor
  · rw [extent, Contour.obround_of_le wide]
    apply Box.holds_halfCircles (by linarith) <;>
      simp [straight, backwards]
  -- The right cap goes from the bottom over its middle to the top, the left one back
  -- again.
  · rw [extent, Contour.obround_of_le wide]
    constructor
    · refine ⟨_, List.mem_append_right _ (mem_halfCircle _ _ 8 Real.pi (by norm_num) ?_),
        ?_⟩
      · push_cast
        ring
      · simp only [Point.polar_x, Real.cos_pi, Box.around, Span.low, Exact.two_eq]
        ring
    · refine ⟨_, List.mem_append_left _ (mem_halfCircle _ _ 8 0 (by norm_num) ?_), ?_⟩
      · push_cast
        ring
      · simp only [Point.polar_x, Real.cos_zero, Box.around, Span.high, Exact.two_eq]
        ring
    · refine ⟨_, List.mem_append_left _
        (mem_halfCircle _ _ 0 (-(Real.pi / 2)) (by norm_num) ?_), ?_⟩
      · push_cast
        ring
      · simp only [Point.polar_y, Real.sin_neg, Real.sin_pi_div_two, Box.around, Span.low,
          Exact.two_eq]
        ring
    · refine ⟨_, List.mem_append_left _
        (mem_halfCircle _ _ 16 (Real.pi / 2) (by norm_num) ?_), ?_⟩
      · push_cast
        ring
      · simp only [Point.polar_y, Real.sin_pi_div_two, Box.around, Span.high,
          Exact.two_eq]
        ring

theorem fills_obround_of_lt (narrow : 0 ≤ width) (tall : width < height) :
    (polygon (Contour.obround center width height)).Fills
      (.around center width height) := by
  have straight : |height / 2 - width / 2| = height / 2 - width / 2 :=
    abs_of_nonneg (by linarith)
  have backwards : |width / 2 - height / 2| = height / 2 - width / 2 :=
    (abs_sub_comm _ _).trans straight
  constructor
  · rw [extent, Contour.obround_of_lt tall]
    apply Box.holds_halfCircles (by linarith) <;>
      simp [straight, backwards]
  -- The upper cap goes from the right over its middle to the left, the lower one back
  -- again.
  · rw [extent, Contour.obround_of_lt tall]
    constructor
    · refine ⟨_, List.mem_append_left _ (mem_halfCircle _ _ 16 Real.pi (by norm_num) ?_),
        ?_⟩
      · push_cast
        ring
      · simp only [Point.polar_x, Real.cos_pi, Box.around, Span.low, Exact.two_eq]
        ring
    · refine ⟨_, List.mem_append_left _ (mem_halfCircle _ _ 0 0 (by norm_num) ?_), ?_⟩
      · push_cast
        ring
      · simp only [Point.polar_x, Real.cos_zero, Box.around, Span.high, Exact.two_eq]
        ring
    · refine ⟨_, List.mem_append_right _
        (mem_halfCircle _ _ 8 (Real.pi + Real.pi / 2) (by norm_num) ?_), ?_⟩
      · push_cast
        ring
      · simp only [Point.polar_y, Real.sin_add_pi_div_two, Real.cos_pi, Box.around,
          Span.low, Exact.two_eq]
        ring
    · refine ⟨_, List.mem_append_left _
        (mem_halfCircle _ _ 8 (Real.pi / 2) (by norm_num) ?_), ?_⟩
      · push_cast
        ring
      · simp only [Point.polar_y, Real.sin_pi_div_two, Box.around, Span.high,
          Exact.two_eq]
        ring

theorem fills_obround (wide : 0 ≤ width) (high : 0 ≤ height) :
    (polygon (Contour.obround center width height)).Fills
      (.around center width height) := by
  rcases le_or_gt height width with longer | longer
  · exact fills_obround_of_le high longer
  · exact fills_obround_of_lt wide longer

end Path.Primitive

end Photoplot
