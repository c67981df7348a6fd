import Photoplot.Proofs.Geometry.Sector
import Photoplot.Proofs.Geometry.Similarity

/-! # Areas of bands

Seen from the centre of an arc, all chords of one radius span the same triangle, and the
straight ends of a band span none. So the area of a band is a number of equal triangles on
the outer side less as many on the inner side, wherever the centre is. -/

namespace Photoplot

/-! ## Areas seen from a point -/

namespace Contour

/-- The triangles that the edges span with any point make up the area. -/
theorem area_eq_sum_side (center : Point ℝ) (contour : Contour ℝ) :
    contour.area = (contour.edges.map center.side).sum / 2 := by
  let drift (point : Point ℝ) : ℝ := point.x * center.y - center.x * point.y
  have seen : ∀ edge : Point ℝ × Point ℝ,
      center.side edge = cross edge + (drift edge.2 - drift edge.1) := by
    intro edge
    simp only [Point.side, cross, drift]
    ring
  have summed : (contour.edges.map center.side).sum = (contour.edges.map cross).sum := by
    simp only [funext seen, List.sum_map_add, sum_edges_sub, add_zero]
  rw [summed, area_eq_sum]

/-- Going back along a chain, all triangles change their signs. -/
theorem sum_side_links_reverse (center : Point ℝ) (chain : List (Point ℝ)) :
    ((links chain.reverse).map center.side).sum =
      -((links chain).map center.side).sum := by
  have turned : center.side ∘ Prod.swap = Neg.neg ∘ center.side := funext center.side_swap
  rw [links_reverse, List.map_map, turned, ← List.map_map, ← List.sum_neg,
    List.map_reverse, List.sum_reverse]

/-! ## Edges of joined chains -/

theorem links_append_cons (before : List (Point ℝ)) (middle : Point ℝ)
    (after : List (Point ℝ)) :
    links (before ++ middle :: after) =
      links (before ++ [middle]) ++ links (middle :: after) := by
  induction before with
  | nil => rfl
  | cons first rest induction =>
      cases rest with
      | nil => rfl
      | cons second rest =>
          simp only [List.cons_append, links_cons_cons] at induction ⊢
          rw [induction]

/-- Two chains make a contour with an edge from each of them to the other one. -/
theorem edges_append {first second : List (Point ℝ)} {start turn back finish : Point ℝ}
    (isStart : first.head? = some start) (isTurn : first.getLast? = some turn)
    (isBack : second.head? = some back) (isFinish : second.getLast? = some finish) :
    edges (first ++ second) =
      links first ++ (turn, back) :: (links second ++ [(finish, start)]) := by
  rcases List.head?_eq_some_iff.mp isStart with ⟨later, starts⟩
  rcases List.getLast?_eq_some_iff.mp isTurn with ⟨earlier, turns⟩
  rcases List.head?_eq_some_iff.mp isBack with ⟨later', backs⟩
  rcases List.getLast?_eq_some_iff.mp isFinish with ⟨earlier', finishes⟩
  have closed : edges (first ++ second) = links (first ++ second ++ [start]) := by
    rw [starts, List.cons_append, edges_cons]
  have cut : first ++ second ++ [start] = earlier ++ turn :: (second ++ [start]) := by
    rw [turns]
    simp
  have linked :
      links (turn :: (second ++ [start])) =
        (turn, back) :: links (second ++ [start]) := by
    rw [backs]
    rfl
  have ended : links (second ++ [start]) = links second ++ [(finish, start)] := by
    rw [finishes, List.append_assoc, List.singleton_append, links_append_singleton]
  rw [closed, cut, links_append_cons, ← turns, linked, ended]

theorem links_map_range (vertex : ℕ → Point ℝ) (count : ℕ) :
    links ((List.range (count + 1)).map vertex) =
      (List.range count).map fun step => (vertex step, vertex (step + 1)) := by
  induction count with
  | zero => rfl
  | succ count induction =>
      rw [List.range_succ] at induction
      rw [List.range_succ, List.range_succ, List.append_assoc, List.map_append,
        List.singleton_append, List.map_cons, List.map_singleton, links_append_singleton,
        List.map_append, ← induction]
      simp

end Contour

/-! ## Flattened arcs -/

theorem Point.side_polar (center : Point ℝ) (radius other first second : ℝ) :
    center.side (center.polar radius first, center.polar other second) =
      radius * other * Real.sin (second - first) := by
  change (center.x + other * Real.cos second - (center.x + radius * Real.cos first)) *
      (center.y - (center.y + radius * Real.sin first)) -
    (center.x - (center.x + radius * Real.cos first)) *
      (center.y + other * Real.sin second - (center.y + radius * Real.sin first)) = _
  rw [Real.sin_sub]
  ring

namespace Arc

theorem head_points (arc : Arc ℝ) :
    arc.points.head? = some (arc.pointAt arc.start arc.radius) := by
  simp [points, List.range_succ_eq_map, ofNat_eq_cast, pointAt]

/-- All chords of a flattened arc are seen alike from its centre. -/
theorem sum_side_points (arc : Arc ℝ) :
    ((Contour.links arc.points).map arc.center.side).sum =
      chordCount arc.sweep *
        (arc.radius ^ 2 * Real.sin (arc.sweep / chordCount arc.sweep)) := by
  have chord : ∀ step : ℕ, arc.start + arc.sweep * (step + 1 : ℕ) / chordCount arc.sweep -
      (arc.start + arc.sweep * step / chordCount arc.sweep) =
        arc.sweep / chordCount arc.sweep := by
    intro step
    push_cast
    ring
  simp only [points, Contour.links_map_range, List.map_map, Function.comp_def,
    Point.side_polar, ofNat_eq_cast, chord, ← sq]
  simp

/-- Each chord covers two degrees at most. -/
theorem abs_sweep_div_chordCount_le (sweep : ℝ) :
    |sweep| / chordCount sweep ≤ chordAngle := by
  have angle : (0 : ℝ) < chordAngle := by
    change (0 : ℝ) < Real.pi / 90.0
    positivity
  have count : (0 : ℝ) < chordCount sweep := by exact_mod_cast chordCount_pos sweep
  have enough : |sweep| / chordAngle ≤ (chordCount sweep : ℝ) :=
    (Nat.le_ceil _).trans (by exact_mod_cast le_max_left _ _)
  rw [div_le_iff₀ angle] at enough
  rw [div_le_iff₀ count]
  linarith

/-! ## Bands -/

/-- The band between two radii, in the direction of the sweep. -/
theorem area_between (center : Point ℝ) (outer inner start sweep : ℝ) :
    Contour.area (points ⟨center, outer, start, sweep⟩ ++
        (points ⟨center, inner, start, sweep⟩).reverse) =
      chordCount sweep / 2 * (outer ^ 2 - inner ^ 2) *
        Real.sin (sweep / chordCount sweep) := by
  let rim : Arc ℝ := ⟨center, outer, start, sweep⟩
  let hollow : Arc ℝ := ⟨center, inner, start, sweep⟩
  have edges := Contour.edges_append rim.head_points rim.getLast_points
    (List.head?_reverse.trans hollow.getLast_points)
    (List.getLast?_reverse.trans hollow.head_points)
  have radial : ∀ angle radius other : ℝ,
      center.side (center.polar radius angle, center.polar other angle) = 0 := by
    intro angle radius other
    rw [Point.side_polar, sub_self, Real.sin_zero, mul_zero]
  have onRim := rim.sum_side_points
  have onHollow := hollow.sum_side_points
  have ends : center.side (rim.pointAt rim.finish outer,
      hollow.pointAt hollow.finish inner) = 0 ∧
      center.side (hollow.pointAt start inner, rim.pointAt start outer) = 0 :=
    ⟨radial _ _ _, radial _ _ _⟩
  rw [Contour.area_eq_sum_side center, edges, List.map_append, List.sum_append,
    List.map_cons, List.sum_cons, List.map_append, List.sum_append,
    Contour.sum_side_links_reverse, onRim, onHollow, List.map_singleton,
    List.sum_singleton, ends.1, ends.2]
  ring

theorem area_between_pos {outer inner sweep : ℝ} (nonneg : 0 ≤ inner)
    (smaller : inner < outer) (moving : 0 < |sweep|) :
    0 < chordCount sweep / 2 * (outer ^ 2 - inner ^ 2) *
      Real.sin (|sweep| / chordCount sweep) := by
  have count : (0 : ℝ) < chordCount sweep := by exact_mod_cast chordCount_pos sweep
  have squares : 0 < outer ^ 2 - inner ^ 2 :=
    sub_pos.mpr (pow_lt_pow_left₀ smaller nonneg two_ne_zero)
  have flat : (chordAngle : ℝ) < Real.pi := by
    change Real.pi / 90.0 < Real.pi
    exact div_lt_self Real.pi_pos (by norm_num)
  have sine : 0 < Real.sin (|sweep| / chordCount sweep) :=
    Real.sin_pos_of_pos_of_lt_pi (div_pos moving count)
      ((abs_sweep_div_chordCount_le sweep).trans_lt flat)
  positivity

/-- A band that is no ring is one counter-clockwise contour, whichever way the arc goes.
Its area is that of as many equal triangles as there are chords, less those of the inner
radius. -/
theorem area_band {arc : Arc ℝ} {width : ℝ} (radius : 0 ≤ arc.radius) (wide : 0 < width)
    (moving : 0 < |arc.sweep|) (unclosed : |arc.sweep| < 2 * Real.pi - 1e-9) :
    let count := chordCount arc.sweep
    let outer := arc.radius + width / 2
    let inner := max (arc.radius - width / 2) 0
    |arc.sweep| / count ≤ chordAngle ∧
      ∃ contour, arc.band width = [contour] ∧ 0 < contour.area ∧
        contour.area =
          count / 2 * (outer ^ 2 - inner ^ 2) * Real.sin (|arc.sweep| / count) := by
  intro count outer inner
  have isOuter : arc.outerRadius width = outer := by rw [outerRadius, Exact.two_eq]
  have isInner : arc.innerRadius width = inner := by
    rw [innerRadius, Scalar.greater_eq_max, Exact.two_eq, Exact.zero_eq]
  have notFull : arc.isFullCircle = false := by
    rw [isFullCircle, turn_eq]
    exact decide_eq_false (not_le.mpr unclosed)
  have smaller : inner < outer := by
    change max (arc.radius - width / 2) 0 < arc.radius + width / 2
    exact max_lt (by linarith) (by linarith)
  have positive := area_between_pos (le_max_right _ _) smaller moving
  have area := area_between arc.center outer inner arc.start arc.sweep
  refine ⟨abs_sweep_div_chordCount_le arc.sweep, _, if_neg (by simp [notFull]), ?_⟩
  rw [isOuter, isInner]
  suffices isArea : Contour.area _ = count / 2 * (outer ^ 2 - inner ^ 2) *
      Real.sin (|arc.sweep| / count) by
    exact ⟨isArea ▸ positive, isArea⟩
  split
  · rename_i backward
    rw [Exact.zero_eq] at backward
    rw [Contour.area_reverse, area, abs_of_neg backward, neg_div, Real.sin_neg]
    ring
  · rename_i forward
    rw [Exact.zero_eq, not_lt] at forward
    rw [area, abs_of_nonneg forward]

/-- A quarter turn clockwise, drawn so wide that nothing is left of the inner radius. -/
theorem area_band_quarter :
    let arc : Arc ℝ := ⟨⟨3, 4⟩, 1, Real.pi, -(Real.pi / 2)⟩
    (0 ≤ arc.radius ∧ (0 : ℝ) < 4 ∧ 0 < |arc.sweep| ∧ |arc.sweep| < 2 * Real.pi - 1e-9) ∧
      ∃ contour, arc.band 4 = [contour] ∧
        contour.area = 45 / 2 * 3 ^ 2 * Real.sin (Real.pi / 90) := by
  intro arc
  have quarter : |arc.sweep| = Real.pi / 2 := by
    rw [abs_neg, abs_of_pos (by positivity)]
  have three := Real.pi_gt_three
  have nonneg : 0 ≤ arc.radius := zero_le_one
  have moving : 0 < |arc.sweep| := by
    rw [quarter]
    positivity
  have unclosed : |arc.sweep| < 2 * Real.pi - 1e-9 := by
    rw [quarter]
    linarith
  have count : chordCount arc.sweep = 45 := by
    have parts : Real.pi / 2 / chordAngle = (45 : ℕ) := by
      change Real.pi / 2 / (Real.pi / 90.0) = _
      field_simp
      norm_num
    change max ⌈|arc.sweep| / chordAngle⌉₊ 2 = 45
    rw [quarter, parts, Nat.ceil_natCast]
    rfl
  rcases (area_band nonneg (by norm_num : (0 : ℝ) < 4) moving unclosed).2 with
    ⟨contour, isBand, -, area⟩
  refine ⟨⟨nonneg, by norm_num, moving, unclosed⟩, contour, isBand, ?_⟩
  have chord : Real.pi / 2 / (45 : ℕ) = Real.pi / 90 := by
    push_cast
    ring
  have isRadius : arc.radius = 1 := rfl
  rw [area, count, quarter, chord, isRadius]
  norm_num

end Arc

end Photoplot
