import Photoplot.Proofs.Geometry.Distance
import Photoplot.Proofs.Geometry.Sector
import Photoplot.Proofs.Geometry.Sweep
import Photoplot.Proofs.Plot.Region
import Photoplot.Proofs.Source.Coordinate

/-! # Circular draws

The arc of a circular draw begins at the point where the draw does. It ends where
the draw does as well, provided that both points are equally far from the centre;
nothing checks that they are. -/

namespace Photoplot

namespace Arc

/-! ## Resolved arcs -/

section

variable {K : Type} [PlaneScalar K]

def about? (clockwise : Bool) (start finish center : Point K) : Option (Arc K) :=
  if start.distance center < 1e-9 then none
  else
    some ⟨center, start.distance center, angleFrom center start,
      if decide (finish.distance start < 1e-9) then
        if clockwise then -PlaneScalar.turn else PlaneScalar.turn
      else
        directedSweep PlaneScalar.turn (angleFrom center finish - angleFrom center start)
          clockwise⟩

/-- With single quadrants a draw that comes back to its start has no arc. -/
theorem resolve_single (clockwise : Bool) (start finish offset : Point K) :
    resolve? .single clockwise start finish offset =
      if finish.distance start < 1e-9 then none
      else (quadrantCenter? start finish (Scalar.abs offset.x)
        (Scalar.abs offset.y) clockwise).bind
        (about? clockwise start finish) := by
  unfold about?
  by_cases closed : finish.distance start < 1e-9
  · have same :
        decide (PlaneScalar.hypot (finish.x - start.x)
          (finish.y - start.y) < (1e-9 : K)) =
        true := decide_eq_true closed
    rw [if_pos closed, resolve?, same]
    rfl
  · have different :
        decide (PlaneScalar.hypot (finish.x - start.x) (finish.y - start.y) <
          (1e-9 : K)) = false :=
      decide_eq_false closed
    rw [if_neg closed, resolve?, different, decide_eq_false closed]
    rfl

theorem exists_about {quadrants : Quadrants} {clockwise : Bool}
    {start finish offset : Point K} {arc : Arc K}
    (resolved : resolve? quadrants clockwise start finish offset = some arc) :
    ∃ center, about? clockwise start finish center = some arc := by
  cases quadrants with
  | multi => exact ⟨⟨start.x + offset.x, start.y + offset.y⟩, resolved⟩
  | single =>
      rw [resolve_single] at resolved
      split at resolved
      · cases resolved
      · rcases Option.bind_eq_some_iff.mp resolved with ⟨center, -, found⟩
        exact ⟨center, found⟩

end

/-! ## Ends -/

/-- A point is found again by its direction and its distance. -/
theorem polar_angleFrom (center point : Point ℝ) :
    center.polar (point.distance center) (angleFrom center point) = point := by
  have length := point.distance_eq_norm center
  have angle : angleFrom center point =
      Complex.arg ⟨point.x - center.x, point.y - center.y⟩ := rfl
  have across := Complex.norm_mul_cos_arg ⟨point.x - center.x, point.y - center.y⟩
  have up := Complex.norm_mul_sin_arg ⟨point.x - center.x, point.y - center.y⟩
  rw [← length, ← angle] at across up
  change (⟨center.x + point.distance center * Real.cos (angleFrom center point),
    center.y + point.distance center * Real.sin (angleFrom center point)⟩ :
    Point ℝ) = point
  rw [across, up, add_sub_cancel, add_sub_cancel]

theorem angleFrom_polar (center : Point ℝ) {radius angle : ℝ} (positive : 0 < radius)
    (above : -Real.pi < angle) (below : angle ≤ Real.pi) :
    angleFrom center (center.polar radius angle) = angle := by
  have number : (⟨radius * Real.cos angle, radius * Real.sin angle⟩ : ℂ) =
      radius * (Complex.cos angle + Complex.sin angle * Complex.I) := by
    apply Complex.ext <;> simp [← Complex.ofReal_cos, ← Complex.ofReal_sin]
  change Complex.arg ⟨center.x + radius * Real.cos angle - center.x,
    center.y + radius * Real.sin angle - center.y⟩ = angle
  rw [add_sub_cancel_left, add_sub_cancel_left, number]
  exact Complex.arg_mul_cos_add_sin_mul_I positive ⟨above, below⟩

theorem polar_add_turns (center : Point ℝ) (radius angle : ℝ) (turns : ℤ) :
    center.polar radius (angle + PlaneScalar.turn * turns) =
      center.polar radius angle := by
  have cosine : Real.cos (angle + PlaneScalar.turn * turns) = Real.cos angle := by
    rw [turn_eq, mul_comm, Real.cos_add_int_mul_two_pi]
  have sine : Real.sin (angle + PlaneScalar.turn * turns) = Real.sin angle := by
    rw [turn_eq, mul_comm, Real.sin_add_int_mul_two_pi]
  change (⟨center.x + radius * Real.cos (angle + PlaneScalar.turn * turns),
    center.y + radius * Real.sin (angle + PlaneScalar.turn * turns)⟩ : Point ℝ) = _
  rw [cosine, sine]
  rfl

/-- The arc leads from one point to another one. A full circle comes back close to
where it began. -/
structure Joins (arc : Arc ℝ) (start finish : Point ℝ) : Prop where
  extent : degenerateLength ≤ arc.radius
  atStart : arc.pointAt arc.start arc.radius = start
  atFinish : finish.distance arc.center = arc.radius →
    arc.isFullCircle = true ∨ arc.pointAt arc.finish arc.radius = finish

theorem degenerateLength_pos : (0 : ℝ) < degenerateLength := by
  norm_num [degenerateLength]

theorem Joins.radius_nonneg {arc : Arc ℝ} {start finish : Point ℝ}
    (joins : arc.Joins start finish) :
    0 ≤ arc.radius :=
  degenerateLength_pos.le.trans joins.extent

/-- Where an arc ends: a full circle where it began, any other arc in the direction of the
point that it was to reach. -/
theorem end_of_about {clockwise : Bool} {start finish center : Point ℝ} {arc : Arc ℝ}
    (found : about? clockwise start finish center = some arc) :
    arc.center = center ∧ arc.radius = start.distance center ∧
      degenerateLength ≤ arc.radius ∧
      arc.pointAt arc.start arc.radius = start ∧
      if finish.distance start < 1e-9 then
        arc.isFullCircle = true ∧ arc.pointAt arc.finish arc.radius = start
      else
        arc.pointAt arc.finish arc.radius =
          center.polar arc.radius (angleFrom center finish) := by
  unfold about? at found
  split at found
  · cases found
  rename_i extent
  rcases Option.some.inj found with rfl
  refine ⟨rfl, rfl, not_lt.mp extent, polar_angleFrom center start, ?_⟩
  by_cases closed : finish.distance start < 1e-9
  · have turns : ∃ count : ℤ, |(count : ℝ)| = 1 ∧
        (if clockwise then -PlaneScalar.turn else PlaneScalar.turn : ℝ) =
          PlaneScalar.turn * count := by
      cases clockwise with
      | true => exact ⟨-1, by simp, by simp⟩
      | false => exact ⟨1, by simp, by simp⟩
    rcases turns with ⟨count, one, whole⟩
    simp only [closed, decide_true, if_true, whole]
    constructor
    · rw [isFullCircle, decide_eq_true_eq]
      change _ ≤ |(PlaneScalar.turn : ℝ) * count|
      rw [abs_mul, one, mul_one, abs_of_pos turn_pos]
      norm_num
    · rw [pointAt, Arc.finish, polar_add_turns]
      exact polar_angleFrom center start
  · rcases exists_directedSweep_eq turn_pos
      (angleFrom center finish - angleFrom center start) clockwise with ⟨count, directed⟩
    simp only [pointAt, Arc.finish, closed, decide_false, Bool.false_eq_true, if_false,
      directed]
    rw [← add_assoc, add_sub_cancel, polar_add_turns]

/-- No arc goes around more than once. -/
theorem abs_sweep_le {quadrants : Quadrants} {clockwise : Bool}
    {start finish offset : Point ℝ} {arc : Arc ℝ}
    (resolved : resolve? quadrants clockwise start finish offset = some arc) :
    |arc.sweep| ≤ PlaneScalar.turn := by
  rcases exists_about resolved with ⟨center, found⟩
  unfold about? at found
  split at found
  · cases found
  rcases Option.some.inj found with rfl
  change |if _ then _ else _| ≤ _
  split
  · split
    · rw [abs_neg, abs_of_pos turn_pos]
    · rw [abs_of_pos turn_pos]
  · exact (directed_directedSweep turn_pos _ _).abs_le

theorem joins_of_resolve {quadrants : Quadrants} {clockwise : Bool}
    {start finish offset : Point ℝ} {arc : Arc ℝ}
    (resolved : resolve? quadrants clockwise start finish offset = some arc) :
    arc.Joins start finish := by
  rcases exists_about resolved with ⟨center, found⟩
  rcases end_of_about found with ⟨rfl, -, extent, atStart, atEnd⟩
  refine ⟨extent, atStart, fun onCircle => ?_⟩
  split at atEnd
  · exact .inl atEnd.1
  · rw [← onCircle, polar_angleFrom] at atEnd
    rw [← onCircle]
    exact .inr atEnd

def Meets (arc : Arc ℝ) (point : Point ℝ) : Prop :=
  |point.distance arc.center - arc.radius| < degenerateLength

/-- An arc ends at the point that it was to reach only if that is on its circle. -/
theorem together_finish_iff {quadrants : Quadrants} {clockwise : Bool}
    {start finish offset : Point ℝ} {arc : Arc ℝ}
    (resolved : resolve? quadrants clockwise start finish offset = some arc) :
    Canvas.Together (arc.pointAt arc.finish arc.radius) finish ↔ arc.Meets finish := by
  rcases exists_about resolved with ⟨center, found⟩
  rcases end_of_about found with ⟨rfl, radius, -, -, atEnd⟩
  unfold Canvas.Together Meets
  split at atEnd
  · rename_i closed
    have sides : |finish.distance arc.center - start.distance arc.center| ≤
        finish.distance start := by
      have there := finish.distance_triangle start arc.center
      have back := start.distance_triangle finish arc.center
      rw [start.distance_comm finish] at back
      rw [abs_le]
      constructor
      · linarith
      · linarith
    rw [atEnd.2, radius, start.distance_comm finish]
    exact iff_of_true closed (sides.trans_lt closed)
  · have placed := polar_angleFrom arc.center finish
    rw [atEnd]
    nth_rewrite 2 [← placed]
    rw [Point.distance_polar, abs_sub_comm]

/-- About a centre apart from its start, a draw always follows an arc. -/
theorem exists_resolve {clockwise : Bool} {start finish offset center : Point ℝ}
    (centered : (⟨start.x + offset.x, start.y + offset.y⟩ : Point ℝ) = center)
    (extent : degenerateLength ≤ start.distance center) :
    ∃ arc,
      resolve? .multi clockwise start finish offset = some arc ∧ arc.center = center ∧
      arc.radius = start.distance center := by
  have found : resolve? .multi clockwise start finish offset =
      about? clockwise start finish center := by
    rw [← centered]
    rfl
  have wide : ¬start.distance center < 1e-9 := not_lt.mpr extent
  rw [found, about?, if_neg wide]
  exact ⟨_, rfl, rfl, rfl⟩

theorem resolved_of_arc {modes : Modes ℝ} {origin : Point ℝ} {fields : CoordinateFields ℝ}
    {arc : Arc ℝ} (resolved : Machine.arc? modes origin fields = some arc) :
    ∃ clockwise, resolve? modes.quadrants clockwise origin modes.position
      (modes.offsets fields) = some arc := by
  simp only [Machine.arc?] at resolved
  split at resolved
  · cases resolved
  · exact ⟨true, resolved⟩
  · exact ⟨false, resolved⟩

theorem joins_of_arc {modes : Modes ℝ} {origin : Point ℝ} {fields : CoordinateFields ℝ}
    {arc : Arc ℝ} (resolved : Machine.arc? modes origin fields = some arc) :
    arc.Joins origin modes.position := by
  rcases resolved_of_arc resolved with ⟨clockwise, resolved⟩
  exact joins_of_resolve resolved

end Arc

end Photoplot
