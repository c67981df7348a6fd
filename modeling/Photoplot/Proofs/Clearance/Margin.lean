import Photoplot.Proofs.Overlay.Cut

/-! # Plates with a margin

A plate that is given by a box reaches from the middle of the box as far as half of it
and the margin together. A negative margin that takes away more than there is does not
leave an empty plate: the sides pass each other and enclose material again. -/

namespace Photoplot

/-! ## Upright sides -/

namespace Point

/-- An upright edge is met by the rays from the points before it, between its ends. -/
theorem crossing_upright_ne_zero_iff (point : Point ℝ) (x first last : ℝ) :
    point.crossing (⟨x, first⟩, ⟨x, last⟩) ≠ 0 ↔
      point.y ∈ Set.Ico (min first last) (max first last) ∧ point.x < x := by
  have side : point.side (⟨x, first⟩, ⟨x, last⟩) = (x - point.x) * (last - first) := by
    simp only [Point.side]
    ring
  rcases le_total first last with rising | falling
  · have notDown : ¬(last ≤ point.y ∧ point.y < first ∧
        point.side (⟨x, first⟩, ⟨x, last⟩) < 0) :=
      fun down => absurd (down.1.trans_lt down.2.1) (not_lt.mpr rising)
    rw [crossing, if_neg notDown, min_eq_left rising, max_eq_right rising, Set.mem_Ico]
    constructor
    · intro met
      rcases ite_ne_right_iff.mp met with ⟨⟨above, below, left⟩, -⟩
      rw [side] at left
      exact ⟨⟨above, below⟩, by nlinarith⟩
    · rintro ⟨⟨above, below⟩, before⟩
      rw [if_pos ⟨above, below, by rw [side]; nlinarith⟩]
      decide
  · have notUp : ¬(first ≤ point.y ∧ point.y < last ∧
        0 < point.side (⟨x, first⟩, ⟨x, last⟩)) :=
      fun up => absurd (up.1.trans_lt up.2.1) (not_lt.mpr falling)
    rw [crossing, if_neg notUp, min_eq_right falling, max_eq_left falling, Set.mem_Ico]
    constructor
    · intro met
      rcases ite_ne_right_iff.mp met with ⟨⟨above, below, right⟩, -⟩
      rw [side] at right
      exact ⟨⟨above, below⟩, by nlinarith⟩
    · rintro ⟨⟨above, below⟩, before⟩
      rw [if_pos ⟨above, below, by rw [side]; nlinarith⟩]
      decide

/-- Of the sides of a box only the upright ones are met. -/
theorem odd_crossings_corners (point : Point ℝ) (box : Box ℝ) :
    Odd (point.crossings [box.corners]) ↔
      point.x ∈ Set.Ico (min box.x.low box.x.high) (max box.x.low box.x.high) ∧
        point.y ∈ Set.Ico (min box.y.low box.y.high) (max box.y.low box.y.high) := by
  have bottom :=
      point.crossing_level (⟨box.x.low, box.y.low⟩, ⟨box.x.high, box.y.low⟩) rfl
  have top := point.crossing_level (⟨box.x.high, box.y.high⟩, ⟨box.x.low, box.y.high⟩) rfl
  have right := point.crossing_upright_ne_zero_iff box.x.high box.y.low box.y.high
  have left := point.crossing_upright_ne_zero_iff box.x.low box.y.high box.y.low
  rw [min_comm, max_comm] at left
  simp only [crossings, Box.corners, Contour.edges, List.flatMap_cons, List.flatMap_nil,
    List.tail_cons, List.head?_cons, Option.toList_some, List.cons_append,
    List.nil_append, List.append_nil, List.zip_cons_cons, List.zip_nil_left,
    List.countP_cons, List.countP_nil, bottom, top, right, left]
  by_cases within :
      point.y ∈ Set.Ico (min box.y.low box.y.high) (max box.y.low box.y.high)
  · by_cases beforeLeft : point.x < box.x.low <;>
      by_cases beforeRight : point.x < box.x.high <;>
      simp [within, beforeLeft, beforeRight, not_lt.mp, not_le.mpr]
  · simp [within]

end Point

/-! ## The extent of a plate -/

namespace Box

variable {box : Box ℝ}

theorem exists_bounds (some : box.isEmpty = false) :
    ∃ left right bottom top, box = ⟨.between left right, .between bottom top⟩ := by
  rcases box with ⟨_ | ⟨left, right⟩, _ | ⟨bottom, top⟩⟩
  case between.between => exact ⟨left, right, bottom, top, rfl⟩
  all_goals simp [isEmpty, Span.isEmpty] at some

theorem padded_between {left right bottom top : ℝ}
    (some : (⟨.between left right, .between bottom top⟩ : Box ℝ).isEmpty = false)
    (margin : ℝ) :
    (⟨.between left right, .between bottom top⟩ : Box ℝ).padded margin =
      ⟨.between (left - margin) (right + margin),
        .between (bottom - margin) (top + margin)⟩ := by
  simp [padded, some, Span.padded]

/-- A padded box is empty as soon as the margin takes away more than there is. -/
theorem isEmpty_padded_iff (some : box.isEmpty = false) (margin : ℝ) :
    (box.padded margin).isEmpty = true ↔
      box.width + 2 * margin < 0 ∨ box.height + 2 * margin < 0 := by
  rcases exists_bounds some with ⟨left, right, bottom, top, rfl⟩
  have negative (low high : ℝ) :
      high + margin < low - margin ↔ high - low + 2 * margin < 0 := by
    constructor <;> intro less <;> linarith
  rw [padded_between some, width, height, some]
  simp only [isEmpty, Span.isEmpty, Span.low, Span.high, Bool.or_eq_true,
    Bool.not_eq_true', decide_eq_false_iff_not, not_le, negative, Bool.false_eq_true,
    if_false]

end Box

namespace Plate

/-- The points with material: those of odd parity in the contours of the plate. -/
def region (plate : Plate ℝ) (margin : ℝ) : Set (Point ℝ) :=
  {point | ∃ shape ∈ plate.shapes margin, Odd (point.crossings shape)}

/-- Between two bounds that are moved apart from each other, or past each other. -/
theorem Ico_moved_apart (low high margin : ℝ) :
    Set.Ico (min (low - margin) (high + margin)) (max (low - margin) (high + margin)) =
      Set.Ico ((low + high) / 2 - |(high - low) / 2 + margin|)
        ((low + high) / 2 + |(high - low) / 2 + margin|) := by
  rcases le_total 0 ((high - low) / 2 + margin) with apart | past
  · rw [abs_of_nonneg apart, min_eq_left (by linarith), max_eq_right (by linarith)]
    congr 1 <;> ring
  · rw [abs_of_nonpos past, min_eq_right (by linarith), max_eq_left (by linarith)]
    congr 1 <;> ring

theorem mem_region_bounds {box : Box ℝ} (some : box.isEmpty = false) (margin : ℝ)
    (point : Point ℝ) :
    point ∈ (Plate.bounds box).region margin ↔
      point.x ∈ Set.Ico ((box.x.low + box.x.high) / 2 - |box.width / 2 + margin|)
          ((box.x.low + box.x.high) / 2 + |box.width / 2 + margin|) ∧
        point.y ∈ Set.Ico ((box.y.low + box.y.high) / 2 - |box.height / 2 + margin|)
          ((box.y.low + box.y.high) / 2 + |box.height / 2 + margin|) := by
  have only : (Plate.bounds box).shapes margin = [[(box.padded margin).corners]] := by
    simp [shapes, some]
  rcases Box.exists_bounds some with ⟨left, right, bottom, top, rfl⟩
  simp only [region, only, Set.mem_ofPred_eq, List.mem_singleton, exists_eq_left,
    Point.odd_crossings_corners, Box.padded_between some, Span.low, Span.high,
    Ico_moved_apart, Box.width, Box.height, some, Bool.false_eq_true, if_false]

/-- Half of a length and a margin reach farther with the greater margin, unless the
lesser one has passed the middle farther than that. -/
theorem abs_add_le_abs_add_iff (length : ℝ) {less more : ℝ} (ordered : less ≤ more) :
    |length / 2 + less| ≤ |length / 2 + more| ↔ less = more ∨
      0 ≤ length + less + more := by
  have squares : (length / 2 + more) ^ 2 - (length / 2 + less) ^ 2 =
      (more - less) * (length + less + more) := by ring
  rw [← sq_le_sq, ← sub_nonneg, squares]
  rcases ordered.eq_or_lt with rfl | apart
  · simp
  · rw [mul_nonneg_iff_of_pos_left (sub_pos.mpr apart)]
    exact ⟨.inr, fun either => either.resolve_left apart.ne⟩

theorem region_bounds_eq_empty_iff {box : Box ℝ} (some : box.isEmpty = false)
    (margin : ℝ) :
    (Plate.bounds box).region margin = ∅ ↔
      box.width + 2 * margin = 0 ∨ box.height + 2 * margin = 0 := by
  have none (length : ℝ) : |length / 2 + margin| = 0 ↔ length + 2 * margin = 0 := by
    rw [abs_eq_zero]
    constructor <;> intro zero <;> linarith
  rw [← none, ← none]
  constructor
  · intro empty
    by_contra both
    rw [not_or] at both
    have wide := (abs_nonneg (box.width / 2 + margin)).lt_of_ne' both.1
    have high := (abs_nonneg (box.height / 2 + margin)).lt_of_ne' both.2
    have middle :
        (⟨(box.x.low + box.x.high) / 2, (box.y.low + box.y.high) / 2⟩ : Point ℝ) ∈
        (Plate.bounds box).region margin := by
      rw [mem_region_bounds some]
      exact ⟨⟨by linarith, by linarith⟩, by linarith, by linarith⟩
    rw [empty] at middle
    exact middle
  · intro flat
    ext point
    rw [mem_region_bounds some, Set.mem_empty_iff_false, iff_false]
    rintro ⟨⟨left, right⟩, bottom, top⟩
    rcases flat with flat | flat
    · linarith
    · linarith

/-- A plate with material lies within another one of the same box if both of its sides
reach no farther. The corner that belongs to the plate tells. -/
theorem region_bounds_subset_iff {box : Box ℝ} (some : box.isEmpty = false)
    {less more : ℝ} (material : (Plate.bounds box).region less ≠ ∅) :
    (Plate.bounds box).region less ⊆ (Plate.bounds box).region more ↔
      |box.width / 2 + less| ≤ |box.width / 2 + more| ∧
        |box.height / 2 + less| ≤ |box.height / 2 + more| := by
  constructor
  · intro included
    rcases Set.nonempty_iff_ne_empty.mpr material with ⟨point, inside⟩
    rw [mem_region_bounds some] at inside
    let corner : Point ℝ :=
      ⟨(box.x.low + box.x.high) / 2 - |box.width / 2 + less|,
        (box.y.low + box.y.high) / 2 - |box.height / 2 + less|⟩
    have isCorner : corner ∈ (Plate.bounds box).region less := by
      rw [mem_region_bounds some]
      exact ⟨⟨le_rfl, inside.1.1.trans_lt inside.1.2⟩, le_rfl,
        inside.2.1.trans_lt inside.2.2⟩
    have held := included isCorner
    rw [mem_region_bounds some] at held
    exact ⟨(sub_le_sub_iff_left _).mp held.1.1, (sub_le_sub_iff_left _).mp held.2.1⟩
  · rintro ⟨wide, high⟩ point inside
    rw [mem_region_bounds some] at inside ⊢
    exact ⟨Set.Ico_subset_Ico (by linarith) (by linarith) inside.1,
      Set.Ico_subset_Ico (by linarith) (by linarith) inside.2⟩

/-- A plate has no less material with a greater margin as long as the lesser one leaves
something of the box. Beyond that the plate does not vanish, unless two of its sides
fall together, and what the greater margin leaves covers it only if the two margins
together take away no more than there is. -/
theorem region_subset_iff {box : Box ℝ} (some : box.isEmpty = false) {less more : ℝ}
    (ordered : less ≤ more) :
    ((box.padded less).isEmpty = false →
        (Plate.bounds box).region less ⊆ (Plate.bounds box).region more) ∧
      ((Plate.bounds box).region less = ∅ ↔
        box.width + 2 * less = 0 ∨ box.height + 2 * less = 0) ∧
      ((Plate.bounds box).region less ⊆ (Plate.bounds box).region more ↔
        (Plate.bounds box).region less = ∅ ∨ less = more ∨
          0 ≤ box.width + less + more ∧ 0 ≤ box.height + less + more) := by
  have contained : (Plate.bounds box).region less ⊆ (Plate.bounds box).region more ↔
      (Plate.bounds box).region less = ∅ ∨ less = more ∨
        0 ≤ box.width + less + more ∧ 0 ≤ box.height + less + more := by
    by_cases material : (Plate.bounds box).region less = ∅
    · simp [material]
    · rw [region_bounds_subset_iff some material, abs_add_le_abs_add_iff _ ordered,
        abs_add_le_abs_add_iff _ ordered, ← or_and_left, or_iff_right material]
  refine ⟨fun remains => ?_, region_bounds_eq_empty_iff some less, contained⟩
  have sides : 0 ≤ box.width + 2 * less ∧ 0 ≤ box.height + 2 * less := by
    rw [← not_lt, ← not_lt, ← not_or, ← Box.isEmpty_padded_iff some, remains]
    decide
  exact contained.mpr (.inr (.inr ⟨by linarith, by linarith⟩))

/-- Four millimetres by two, with half a millimetre off on every side and with one
added. -/
theorem region_subset_strip :
    let strip : Box ℝ := ⟨.between 0 4, .between 0 2⟩
    strip.isEmpty = false ∧ (-1 / 2 : ℝ) ≤ 1 ∧ (strip.padded (-1 / 2)).isEmpty = false ∧
      (Plate.bounds strip).region (-1 / 2) ⊆ (Plate.bounds strip).region 1 := by
  intro strip
  have some : strip.isEmpty = false := by norm_num [strip, Box.isEmpty, Span.isEmpty]
  have remains : (strip.padded (-1 / 2)).isEmpty = false := by
    rw [Box.padded_between some]
    norm_num [Box.isEmpty, Span.isEmpty]
  have ordered : (-1 / 2 : ℝ) ≤ 1 := by norm_num
  exact ⟨some, ordered, remains, (region_subset_iff some ordered).1 remains⟩

/-- Six millimetres off on every side of a square of four millimetres make it a square
of eight. -/
theorem not_forall_region_subset :
    (¬∀ (box : Box ℝ) (less more : ℝ), box.isEmpty = false → less ≤ more →
        (Plate.bounds box).region less ⊆ (Plate.bounds box).region more) ∧
      ¬∀ (box : Box ℝ) (margin : ℝ), box.isEmpty = false →
        (box.padded margin).isEmpty = true → (Plate.bounds box).region margin = ∅ := by
  let square : Box ℝ := ⟨.between 0 4, .between 0 4⟩
  have some : square.isEmpty = false := by norm_num [square, Box.isEmpty, Span.isEmpty]
  have width : square.width = 4 := by
    norm_num [Box.width, some, square, Span.low, Span.high]
  have height : square.height = 4 := by
    norm_num [Box.height, some, square, Span.low, Span.high]
  have material : (Plate.bounds square).region (-6) ≠ ∅ := by
    rw [ne_eq, region_bounds_eq_empty_iff some, width, height]
    norm_num
  constructor
  · intro all
    have included := all square (-6) 0 some (by norm_num)
    rw [region_bounds_subset_iff some material, width, height] at included
    norm_num at included
  · intro all
    refine material (all square (-6) some ?_)
    rw [Box.isEmpty_padded_iff some, width, height]
    norm_num

end Plate

end Photoplot
