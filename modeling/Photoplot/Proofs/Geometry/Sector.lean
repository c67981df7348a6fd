import Photoplot.Proofs.Geometry.Extent
import Photoplot.Geometry.Arc

/-! # Boxes around arcs

A box that holds both ends of an arc and the points where the arc, or a larger
one about the same centre, meets the directions of the axes holds the whole arc.
In each direction an arc reaches farthest at an end, unless it passes through
that direction. -/

namespace Photoplot

namespace Arc

/-! ## Farthest points -/

/-- Between two angles without a whole turn between them the cosine is nowhere
greater than at both ends. -/
theorem cos_le_ends {first last angle : ℝ} (after : first ≤ angle)
    (before : angle ≤ last) :
    Real.cos angle ≤ Real.cos first ∨ Real.cos angle ≤ Real.cos last ∨
      ∃ turns : ℤ, first ≤ 2 * Real.pi * turns ∧ 2 * Real.pi * turns ≤ last := by
  by_cases passed : ∃ turns : ℤ, first ≤ 2 * Real.pi * turns ∧ 2 * Real.pi * turns ≤ last
  · exact .inr (.inr passed)
  have positive : 0 < 2 * Real.pi := by positivity
  have below : 2 * Real.pi * ⌊first / (2 * Real.pi)⌋ ≤ first := by
    have floor := Int.floor_le (first / (2 * Real.pi))
    rwa [le_div_iff₀' positive] at floor
  have above : first < 2 * Real.pi * (⌊first / (2 * Real.pi)⌋ + 1) := by
    have floor := Int.lt_floor_add_one (first / (2 * Real.pi))
    rwa [div_lt_iff₀' positive] at floor
  generalize ⌊first / (2 * Real.pi)⌋ = turns at below above
  have lastBelow : last < 2 * Real.pi * (turns + 1) := by
    by_contra reached
    refine passed ⟨turns + 1, ?_, ?_⟩
    · push_cast
      exact above.le
    · push_cast
      exact not_lt.mp reached
  -- All three angles lie in the same turn, where the cosine falls and rises again.
  have shifted : ∀ value : ℝ, Real.cos value =
      Real.cos (value - 2 * Real.pi * turns) := by
    intro value
    rw [mul_comm (2 * Real.pi), Real.cos_sub_int_mul_two_pi]
  rw [shifted angle, shifted first, shifted last]
  by_cases half : angle - 2 * Real.pi * turns ≤ Real.pi
  · left
    exact Real.cos_le_cos_of_nonneg_of_le_pi (by linarith) half (by linarith)
  · right
    left
    rw [← neg_le_neg_iff, ← Real.cos_sub_pi, ← Real.cos_sub_pi]
    exact Real.cos_le_cos_of_nonneg_of_le_pi (by linarith) (by linarith) (by linarith)

/-! ## Directions that an arc meets -/

theorem modulo_le {value divisor : ℝ} (positive : 0 < divisor) (turns : ℤ)
    (nonneg : 0 ≤ value + divisor * turns) :
    PlaneScalar.modulo value divisor ≤ value + divisor * turns := by
  have floor : -turns ≤ ⌊value / divisor⌋ := by
    rw [Int.le_floor, le_div_iff₀' positive]
    push_cast
    linarith
  have cast : -(turns : ℝ) ≤ ⌊value / divisor⌋ := by exact_mod_cast floor
  have scaled := mul_le_mul_of_nonneg_left cast positive.le
  change value - divisor * ⌊value / divisor⌋ ≤ _
  linarith

theorem turn_eq : (PlaneScalar.turn : ℝ) = 2 * Real.pi := by
  change (2.0 : ℝ) * Real.pi = _
  rw [Exact.two_eq]

theorem turn_pos : (0 : ℝ) < PlaneScalar.turn := by
  rw [turn_eq]
  positivity

def Spans (arc : Arc ℝ) (angle : ℝ) : Prop :=
  min arc.start arc.finish ≤ angle ∧ angle ≤ max arc.start arc.finish

theorem containsAngle_of_spans (arc : Arc ℝ) {angle : ℝ} {turns : ℤ}
    (spans : arc.Spans (angle + 2 * Real.pi * turns)) :
    arc.containsAngle angle = true := by
  have positive : 0 < 2 * Real.pi := by positivity
  rcases spans with ⟨lower, upper⟩
  simp only [finish] at lower upper
  simp only [containsAngle, Exact.zero_eq, turn_eq]
  split
  · rename_i forward
    rw [min_eq_left (by linarith)] at lower
    rw [max_eq_right (by linarith)] at upper
    rw [decide_eq_true_eq]
    exact (modulo_le positive turns (by linarith)).trans (by linarith)
  · rename_i backward
    rw [not_le] at backward
    rw [min_eq_right (by linarith)] at lower
    rw [max_eq_left (by linarith)] at upper
    rw [decide_eq_true_eq]
    have back : PlaneScalar.modulo (arc.start - angle) (2 * Real.pi) ≤
        arc.start - angle + 2 * Real.pi * (-turns : ℤ) := by
      apply modulo_le positive (-turns)
      push_cast
      linarith
    push_cast at back
    linarith

theorem axisAngles_eq :
    (axisAngles : List ℝ) = [0, Real.pi / 2, Real.pi, 3 * Real.pi / 2] := by
  have pi : (PlaneScalar.pi : ℝ) = Real.pi := rfl
  norm_num [axisAngles, pi]

theorem mem_extremes {arc : Arc ℝ} {angle : ℝ} (axis : angle ∈ (axisAngles : List ℝ))
    (met : arc.isFullCircle = true ∨ arc.containsAngle angle = true) :
    arc.pointAt angle arc.radius ∈ arc.extremes := by
  apply List.mem_map_of_mem
  exact List.mem_filter.mpr ⟨axis, by simpa using met⟩

/-! ## Points between held points -/

noncomputable def reach (center : Point ℝ) (direction : ℝ) (point : Point ℝ) : ℝ :=
  (point.x - center.x) * Real.cos direction + (point.y - center.y) * Real.sin direction

theorem reach_polar (center : Point ℝ) (direction radius angle : ℝ) :
    reach center direction (center.polar radius angle) =
      radius * Real.cos (angle - direction) := by
  change (center.x + radius * Real.cos angle - center.x) * Real.cos direction +
    (center.y + radius * Real.sin angle - center.y) * Real.sin direction = _
  rw [Real.cos_sub]
  ring

/-- The points that the box holds reach as far as the given one along each axis. -/
theorem holds_of_reach {box : Box ℝ} {point : Point ℝ} (center : Point ℝ)
    (reached : ∀ direction ∈ (axisAngles : List ℝ), ∃ held, box.Holds held ∧
      reach center direction point ≤ reach center direction held) : box.Holds point := by
  rw [axisAngles_eq] at reached
  rcases reached 0 (by simp) with ⟨right, rightHeld, toRight⟩
  rcases reached (Real.pi / 2) (by simp) with ⟨top, topHeld, toTop⟩
  rcases reached Real.pi (by simp) with ⟨left, leftHeld, toLeft⟩
  rcases reached (3 * Real.pi / 2) (by simp) with ⟨bottom, bottomHeld, toBottom⟩
  have threeQuarters : 3 * Real.pi / 2 = Real.pi / 2 + Real.pi := by ring
  simp only [reach, Real.cos_zero, Real.sin_zero] at toRight
  simp only [reach, Real.cos_pi_div_two, Real.sin_pi_div_two] at toTop
  simp only [reach, Real.cos_pi, Real.sin_pi] at toLeft
  simp only [reach, threeQuarters, Real.cos_add_pi, Real.sin_add_pi, Real.cos_pi_div_two,
    Real.sin_pi_div_two] at toBottom
  exact ⟨leftHeld.1.between rightHeld.1 (by linarith) (by linarith),
    bottomHeld.2.between topHeld.2 (by linarith) (by linarith)⟩

/-- A box that holds both ends of an arc and the extremes of one that is at least as
large holds all points between the ends. -/
theorem holds_pointAt {box : Box ℝ} {arc : Arc ℝ} {radius angle : ℝ} (nonneg : 0 ≤ radius)
    (smaller : radius ≤ arc.radius) (startHeld : box.Holds (arc.pointAt arc.start radius))
    (finishHeld : box.Holds (arc.pointAt arc.finish radius))
    (extremesHeld : ∀ point ∈ arc.extremes, box.Holds point) (spans : arc.Spans angle) :
    box.Holds (arc.pointAt angle radius) := by
  apply holds_of_reach arc.center
  intro direction axis
  have ends : ∀ bound : ℝ, Real.cos (angle - direction) ≤ Real.cos (bound - direction) →
      reach arc.center direction (arc.pointAt angle radius) ≤
        reach arc.center direction (arc.pointAt bound radius) := by
    intro bound farther
    rw [pointAt, pointAt, reach_polar, reach_polar]
    exact mul_le_mul_of_nonneg_left farther nonneg
  have extreme : ∀ turns : ℤ, arc.Spans (direction + 2 * Real.pi * turns) →
      ∃ held, box.Holds held ∧ reach arc.center direction (arc.pointAt angle radius) ≤
        reach arc.center direction held := by
    intro turns met
    refine ⟨_, extremesHeld _ (mem_extremes axis (.inr (containsAngle_of_spans arc met))),
      ?_⟩
    rw [pointAt, pointAt, reach_polar, reach_polar, sub_self, Real.cos_zero, mul_one]
    exact (mul_le_of_le_one_right nonneg (Real.cos_le_one _)).trans smaller
  rcases cos_le_ends (sub_le_sub_right spans.1 direction)
      (sub_le_sub_right spans.2 direction) with
    low | high | ⟨turns, after, before⟩
  · rcases min_choice arc.start arc.finish with isStart | isFinish
    · rw [isStart] at low
      exact ⟨_, startHeld, ends _ low⟩
    · rw [isFinish] at low
      exact ⟨_, finishHeld, ends _ low⟩
  · rcases max_choice arc.start arc.finish with isStart | isFinish
    · rw [isStart] at high
      exact ⟨_, startHeld, ends _ high⟩
    · rw [isFinish] at high
      exact ⟨_, finishHeld, ends _ high⟩
  · exact extreme turns ⟨by linarith, by linarith⟩

/-- The extremes of a full circle hold all of it, and all smaller circles. -/
theorem holds_polar_of_full {box : Box ℝ} {arc : Arc ℝ} {radius : ℝ} (nonneg : 0 ≤ radius)
    (smaller : radius ≤ arc.radius) (full : arc.isFullCircle = true)
    (extremesHeld : ∀ point ∈ arc.extremes, box.Holds point) (angle : ℝ) :
    box.Holds (arc.center.polar radius angle) := by
  apply holds_of_reach arc.center
  intro direction axis
  refine ⟨_, extremesHeld _ (mem_extremes axis (.inl full)), ?_⟩
  rw [pointAt, reach_polar, reach_polar, sub_self, Real.cos_zero, mul_one]
  exact (mul_le_of_le_one_right nonneg (Real.cos_le_one _)).trans smaller

/-! ## Flattened arcs -/

theorem chordCount_pos (sweep : ℝ) : 0 < chordCount sweep := by
  unfold chordCount
  omega

theorem ofNat_eq_cast (number : ℕ) : (Scalar.ofNat number : ℝ) = number := by
  change ((number : ℤ) : ℝ) = number
  push_cast
  rfl

theorem exists_angle_of_mem_points {arc : Arc ℝ} {point : Point ℝ}
    (member : point ∈ arc.points) :
    ∃ angle, arc.Spans angle ∧ point = arc.pointAt angle arc.radius := by
  simp only [points, List.mem_map, List.mem_range] at member
  rcases member with ⟨step, inside, rfl⟩
  refine ⟨_, ?_, rfl⟩
  have positive : (0 : ℝ) < chordCount arc.sweep := by
    exact_mod_cast chordCount_pos arc.sweep
  have bound : (step : ℝ) ≤ chordCount arc.sweep := by
    exact_mod_cast Nat.le_of_lt_succ inside
  have ratio : (0 : ℝ) ≤ step / chordCount arc.sweep ∧
      (step : ℝ) / chordCount arc.sweep ≤ 1 :=
    ⟨by positivity, (div_le_one positive).mpr bound⟩
  rw [ofNat_eq_cast, ofNat_eq_cast, mul_div_assoc]
  generalize (step : ℝ) / chordCount arc.sweep = part at ratio
  simp only [Spans, finish]
  rcases le_total 0 arc.sweep with forward | backward
  · have nonneg := mul_nonneg forward ratio.1
    have most := mul_le_of_le_one_right forward ratio.2
    exact ⟨(min_le_left _ _).trans (by linarith),
      le_trans (by linarith) (le_max_right _ _)⟩
  · have nonpos := mul_nonpos_of_nonpos_of_nonneg backward ratio.1
    have least : arc.sweep ≤ arc.sweep * part := by nlinarith
    exact ⟨(min_le_right _ _).trans (by linarith),
      le_trans (by linarith) (le_max_left _ _)⟩

theorem getLast_points (arc : Arc ℝ) :
    arc.points.getLast? = some (arc.pointAt arc.finish arc.radius) := by
  have positive : (0 : ℝ) < chordCount arc.sweep := by
    exact_mod_cast chordCount_pos arc.sweep
  have all : arc.sweep * chordCount arc.sweep / chordCount arc.sweep = arc.sweep :=
    mul_div_cancel_right₀ _ positive.ne'
  simp only [points, List.range_succ, List.map_append, List.map_cons, List.map_nil,
    List.getLast?_concat, ofNat_eq_cast, all]
  rfl

theorem two_le_length_tail_points {K : Type} [PlaneScalar K] (arc : Arc K) :
    2 ≤ arc.points.tail.length := by
  simp only [points, List.length_tail, List.length_map, List.length_range, chordCount]
  omega

theorem getLast_tail_points (arc : Arc ℝ) :
    arc.points.tail.getLast? = some (arc.pointAt arc.finish arc.radius) := by
  have chords := arc.two_le_length_tail_points
  rw [List.length_tail] at chords
  rw [List.getLast?_tail, if_neg (by omega), arc.getLast_points]

end Arc

end Photoplot
