import Photoplot.Proofs.Plot.Bounds

/-! # Extremes of arcs

A direction meets an arc exactly if some angle of that direction lies between the two
ends. So the extremes of an arc that is no full circle are points of it, and together with
its ends they bound it. The corners of a band and the extremes of its outer edge bound the
band in the same way. -/

namespace Photoplot

namespace Arc

/-! ## Directions that an arc meets -/

theorem exists_modulo_eq (value divisor : ℝ) (positive : 0 < divisor) :
    ∃ turns : ℤ, PlaneScalar.modulo value divisor = value + divisor * turns ∧
      0 ≤ value + divisor * turns := by
  refine ⟨-⌊value / divisor⌋, ?_, ?_⟩
  · change value - divisor * ⌊value / divisor⌋ = _
    push_cast
    ring
  · have floor := Int.floor_le (value / divisor)
    rw [le_div_iff₀ positive] at floor
    push_cast
    linarith

theorem containsAngle_iff_spans (arc : Arc ℝ) (angle : ℝ) :
    arc.containsAngle angle = true ↔
      ∃ turns : ℤ, arc.Spans (angle + 2 * Real.pi * turns) := by
  constructor
  · intro met
    simp only [containsAngle, Exact.zero_eq, turn_eq] at met
    simp only [Spans, finish]
    split at met
    · rcases exists_modulo_eq (angle - arc.start) (2 * Real.pi) (by positivity) with
        ⟨turns, isModulo, nonneg⟩
      rw [decide_eq_true_eq, isModulo] at met
      refine ⟨turns, (min_le_left _ _).trans ?_, le_trans ?_ (le_max_right _ _)⟩ <;>
        linarith
    · rcases exists_modulo_eq (arc.start - angle) (2 * Real.pi) (by positivity) with
        ⟨turns, isModulo, nonneg⟩
      rw [decide_eq_true_eq, isModulo] at met
      refine ⟨-turns, (min_le_right _ _).trans ?_, le_trans ?_ (le_max_left _ _)⟩ <;>
        push_cast <;> linarith
  · rintro ⟨turns, spans⟩
    exact arc.containsAngle_of_spans spans

/-- The angles between the ends are those on the way from the one to the other. -/
theorem spans_iff (arc : Arc ℝ) (angle : ℝ) :
    arc.Spans angle ↔
      ∃ part ∈ Set.Icc (0 : ℝ) 1, angle = arc.start + part * arc.sweep := by
  have between := segment_eq_uIcc arc.start arc.finish
  rw [segment_eq_image'] at between
  have isFinish : arc.finish - arc.start = arc.sweep := add_sub_cancel_left _ _
  have spans : arc.Spans angle ↔ angle ∈ Set.uIcc arc.start arc.finish := Iff.rfl
  rw [spans, ← between, Set.mem_image]
  simp only [isFinish, smul_eq_mul, eq_comm]

/-- The extremes of an arc that is no full circle lie on it. -/
theorem exists_part_of_mem_extremes {arc : Arc ℝ} (unclosed : arc.isFullCircle = false)
    {point : Point ℝ} (member : point ∈ arc.extremes) :
    ∃ part ∈ Set.Icc (0 : ℝ) 1,
      point = arc.pointAt (arc.start + part * arc.sweep) arc.radius := by
  rcases List.mem_map.mp member with ⟨angle, isMet, rfl⟩
  have met : arc.containsAngle angle = true := by
    simpa [unclosed] using (List.mem_filter.mp isMet).2
  rcases (arc.containsAngle_iff_spans angle).mp met with ⟨turns, spans⟩
  rcases (arc.spans_iff _).mp spans with ⟨part, inside, isAngle⟩
  refine ⟨part, inside, ?_⟩
  rw [← isAngle, pointAt, ← turn_eq, polar_add_turns]

/-! ## Boxes of extremes -/

theorem holds_of_ends_of_extremes {box : Box ℝ} {arc : Arc ℝ} (radius : 0 ≤ arc.radius)
    (held : ∀ point ∈ arc.pointAt arc.start arc.radius ::
      arc.pointAt arc.finish arc.radius ::
      arc.extremes, box.Holds point) {angle : ℝ} (spans : arc.Spans angle) :
    box.Holds (arc.pointAt angle arc.radius) :=
  holds_pointAt radius le_rfl (held _ (by simp)) (held _ (by simp))
    (fun point member => held point (by simp [member])) spans

/-- The least box around the ends and the extremes of an arc holds the whole arc, and with
it all points that the arc is flattened to; if the arc is no full circle, its extremes lie
on it. The least box around the corners of a band and the extremes of its outer edge holds
the band. -/
theorem extremes_bound {arc : Arc ℝ} (radius : 0 ≤ arc.radius) :
    let extent :=
      arc.pointAt arc.start arc.radius ::
        arc.pointAt arc.finish arc.radius :: arc.extremes
    let box := Box.empty.coverAll extent
    box.Frames extent ∧
      (∀ part ∈ Set.Icc (0 : ℝ) 1,
        box.Holds (arc.pointAt (arc.start + part * arc.sweep) arc.radius)) ∧
      (∀ point ∈ arc.points, box.Holds point) ∧
      (|arc.sweep| < 2 * Real.pi - 1e-9 → ∀ point ∈ arc.extremes,
        ∃ part ∈ Set.Icc (0 : ℝ) 1,
          point = arc.pointAt (arc.start + part * arc.sweep) arc.radius) ∧
      ∀ width, 0 ≤ width →
        let rim : Arc ℝ := { arc with radius := arc.outerRadius width }
        let around := Canvas.bandCorners arc width ++ rim.extremes
        (Box.empty.coverAll around).Frames around ∧
          (Box.empty.coverAll around).HoldsShape (arc.band width) := by
  intro extent box
  have holds : ∀ {angle : ℝ}, arc.Spans angle →
      box.Holds (arc.pointAt angle arc.radius) :=
    holds_of_ends_of_extremes radius fun point member => Box.holds_coverAll _ member
  refine ⟨Box.frames_empty.coverAll extent, ?_, ?_, ?_, ?_⟩
  · intro part inside
    exact holds ((arc.spans_iff _).mpr ⟨part, inside, rfl⟩)
  · intro point member
    rcases exists_angle_of_mem_points member with ⟨angle, spans, rfl⟩
    exact holds spans
  · intro unclosed point
    refine exists_part_of_mem_extremes ?_
    rw [isFullCircle, turn_eq]
    exact decide_eq_false (not_le.mpr unclosed)
  · intro width nonneg rim around
    refine ⟨Box.frames_empty.coverAll around,
      (Canvas.encloses_band radius nonneg _ fun point member =>
        Box.holds_coverAll _ ?_).2⟩
    rcases List.mem_append.mp member with extreme | corner
    · exact List.mem_append_right _ extreme
    · split at corner
      · cases corner
      · exact List.mem_append_left _ corner

/-- Clockwise from one diagonal to the next, over the right end of a circle. A wide band
about it reaches to the centre. -/
theorem extremes_bound_diagonal :
    let arc : Arc ℝ := ⟨⟨1, 2⟩, 2, Real.pi / 4, -(Real.pi / 2)⟩
    let rim : Arc ℝ := { arc with radius := arc.outerRadius 6 }
    (0 ≤ arc.radius ∧ 1 / 2 ∈ Set.Icc (0 : ℝ) 1 ∧ |arc.sweep| < 2 * Real.pi - 1e-9 ∧
        ⟨3, 2⟩ ∈ arc.extremes ∧ (0 : ℝ) ≤ 6) ∧
      (Box.empty.coverAll (arc.pointAt arc.start 2 :: arc.pointAt arc.finish 2 ::
        arc.extremes)).Holds ⟨3, 2⟩ ∧
      (∃ part ∈ Set.Icc (0 : ℝ) 1, ⟨3, 2⟩ =
        arc.pointAt (arc.start + part * arc.sweep) 2) ∧
      (Box.empty.coverAll (Canvas.bandCorners arc 6 ++ rim.extremes)).HoldsShape
        (arc.band 6) := by
  intro arc rim
  have radius : 0 ≤ arc.radius := zero_le_two
  have inside : 1 / 2 ∈ Set.Icc (0 : ℝ) 1 := ⟨by norm_num, by norm_num⟩
  have half : arc.start + 1 / 2 * arc.sweep = 0 := by
    change Real.pi / 4 + 1 / 2 * -(Real.pi / 2) = 0
    ring
  have unclosed : |arc.sweep| < 2 * Real.pi - 1e-9 := by
    have three := Real.pi_gt_three
    rw [abs_neg, abs_of_pos (by positivity)]
    linarith
  have right : arc.pointAt 0 2 = ⟨3, 2⟩ := by
    change (⟨1 + 2 * Real.cos 0, 2 + 2 * Real.sin 0⟩ : Point ℝ) = _
    rw [Real.cos_zero, Real.sin_zero]
    norm_num
  have extreme : ⟨3, 2⟩ ∈ arc.extremes := by
    rw [← right]
    refine mem_extremes (by simp [axisAngles_eq])
      (.inr ((arc.containsAngle_iff_spans 0).mpr
        ⟨0, (arc.spans_iff _).mpr ⟨1 / 2, inside, ?_⟩⟩))
    rw [half]
    simp
  rcases extremes_bound radius with ⟨-, held, -, onArc, bands⟩
  refine ⟨⟨radius, inside, unclosed, extreme, by norm_num⟩, ?_, onArc unclosed _ extreme,
    (bands 6 (by norm_num)).2⟩
  have middle := held (1 / 2) inside
  rwa [half, right] at middle

end Arc

end Photoplot
