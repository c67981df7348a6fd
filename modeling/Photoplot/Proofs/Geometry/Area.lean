import Photoplot.Proofs.Overlay.Winding

/-! # Signed areas

The area of a contour is half a sum over its edges, however few there are. Turning the
contour around turns every edge around and so changes the sign of the sum and nothing
else. That is all that happens to the contours of a shape when it is oriented. -/

namespace Photoplot

namespace Contour

theorem cross_swap (edge : Point ℝ × Point ℝ) : cross edge.swap = -cross edge := by
  simp only [cross, Prod.fst_swap, Prod.snd_swap]
  ring

/-- The edges of less than three vertices cancel out, so that they need no case of their
own. -/
theorem area_eq_sum (contour : Contour ℝ) :
    contour.area = (contour.edges.map cross).sum / 2 := by
  unfold area
  split
  · rename_i few
    match contour, few with
    | [], _ => simp [edges, Exact.zero_eq]
    | [only], _ => simp [edges, cross, Exact.zero_eq]
    | [first, second], _ => simp [edges, cross, Exact.zero_eq]
  · rw [Exact.zero_eq, Exact.two_eq, List.sum_eq_foldl, List.foldl_map]

theorem area_reverse (contour : Contour ℝ) : area contour.reverse = -area contour := by
  have turned := ((edges_reverse_perm contour).map cross).sum_eq
  have negated : (cross : Point ℝ × Point ℝ → ℝ) ∘ Prod.swap = Neg.neg ∘ cross :=
      funext cross_swap
  rw [List.map_map, negated, ← List.map_map, ← List.sum_neg] at turned
  rw [area_eq_sum, area_eq_sum, turned, neg_div]

end Contour

/-! ## Orientation -/

namespace Shape

theorem orientContour_eq_or (counterclockwise : Bool) (contour : Contour ℝ) :
    orientContour counterclockwise contour = contour ∨
      orientContour counterclockwise contour = contour.reverse := by
  unfold orientContour
  split
  · exact .inl rfl
  · exact .inr rfl

theorem abs_area_orientContour (counterclockwise : Bool) (contour : Contour ℝ) :
    |(orientContour counterclockwise contour).area| = |contour.area| := by
  rcases orientContour_eq_or counterclockwise contour with same | turned
  · rw [same]
  · rw [turned, Contour.area_reverse, abs_neg]

theorem orientContour_true (contour : Contour ℝ) :
    orientContour true contour = if 0 < contour.area then contour
    else contour.reverse := by
  simp [orientContour, Exact.zero_eq]

theorem orientContour_false (contour : Contour ℝ) :
    orientContour false contour = if 0 < contour.area then contour.reverse
    else contour := by
  by_cases positive : 0 < contour.area
  · simp [orientContour, Exact.zero_eq, positive]
  · simp [orientContour, Exact.zero_eq, positive]

theorem area_orientContour_true (contour : Contour ℝ) :
    0 ≤ (orientContour true contour).area := by
  rw [orientContour_true]
  split
  · rename_i positive
    exact positive.le
  · rename_i notPositive
    rw [Contour.area_reverse]
    exact neg_nonneg.mpr (not_lt.mp notPositive)

theorem area_orientContour_false (contour : Contour ℝ) :
    (orientContour false contour).area ≤ 0 := by
  rw [orientContour_false]
  split
  · rename_i positive
    rw [Contour.area_reverse]
    exact neg_nonpos.mpr positive.le
  · rename_i notPositive
    exact not_lt.mp notPositive

/-- An outer contour without area is turned around each time. -/
theorem orientContour_true_twice (contour : Contour ℝ) :
    orientContour true (orientContour true contour) = orientContour true contour ↔
      (contour.area = 0 → contour.reverse = contour) := by
  rw [orientContour_true contour]
  rcases lt_trichotomy contour.area 0 with negative | zero | positive
  · have turned : 0 < Contour.area contour.reverse := by
      rw [Contour.area_reverse]
      exact neg_pos.mpr negative
    rw [if_neg negative.not_gt, orientContour_true, if_pos turned]
    exact iff_of_true rfl fun zero => absurd zero negative.ne
  · have turned : ¬0 < Contour.area contour.reverse := by
      rw [Contour.area_reverse, zero, neg_zero]
      exact lt_irrefl 0
    rw [if_neg zero.not_gt, orientContour_true, if_neg turned, List.reverse_reverse]
    exact ⟨fun same _ => same.symm, fun same => (same zero).symm⟩
  · rw [if_pos positive, orientContour_true, if_pos positive]
    exact iff_of_true rfl fun zero => absurd zero positive.ne'

/-- A hole without area stays as it is. -/
theorem orientContour_false_twice (contour : Contour ℝ) :
    orientContour false (orientContour false contour) = orientContour false contour := by
  rw [orientContour_false (orientContour false contour),
    if_neg (area_orientContour_false contour).not_gt]

theorem area_orient (shape : Shape ℝ) : shape.orient.area = shape.area := by
  cases shape with
  | nil => rfl
  | cons outer holes =>
      change (holes.map (orientContour false)).foldl (fun sum hole => sum + -|hole.area|)
          |(orientContour true outer).area| =
        holes.foldl (fun sum hole => sum + -|hole.area|) |outer.area|
      simp only [List.foldl_map, abs_area_orientContour]

theorem orient_orient_iff (shape : Shape ℝ) :
    shape.orient.orient = shape.orient ↔
      ∀ outer ∈ shape.head?, outer.area = 0 → outer.reverse = outer := by
  cases shape with
  | nil => simp [orient]
  | cons outer holes =>
      have settled : (holes.map (orientContour false)).map (orientContour false) =
          holes.map (orientContour false) := by
        rw [List.map_map]
        exact List.map_congr_left fun hole _ => orientContour_false_twice hole
      simp only [orient, settled, List.cons.injEq, and_true, orientContour_true_twice,
        List.head?_cons, Option.mem_some_iff, forall_eq']

def Oriented : Shape ℝ → Prop
  | [] => True
  | outer :: holes => 0 ≤ outer.area ∧ ∀ hole ∈ holes, hole.area ≤ 0

theorem oriented_orient (shape : Shape ℝ) : shape.orient.Oriented := by
  cases shape with
  | nil => trivial
  | cons outer holes =>
      refine ⟨area_orientContour_true outer, fun hole isHole => ?_⟩
      rcases List.mem_map.mp isHole with ⟨given, -, rfl⟩
      exact area_orientContour_false given

/-- Orienting a shape turns some of its contours around so that all go the right way. No
area changes, neither of a contour nor of the shape among others, and a second time
changes nothing unless the outer contour has no area. -/
theorem orient_turns_contours (shape : Shape ℝ) :
    List.Forall₂ (fun given turned => turned = given ∨ turned = given.reverse)
        shape shape.orient ∧
      shape.orient.Oriented ∧
      List.Forall₂ (fun given turned : Contour ℝ => |turned.area| = |given.area|)
        shape shape.orient ∧
      (∀ before after, totalArea (before ++ shape.orient :: after) =
        totalArea (before ++ shape :: after)) ∧
      ((∀ contour ∈ shape, contour.area ≠ 0) → shape.orient.orient = shape.orient) := by
  have each {Related : Contour ℝ → Contour ℝ → Prop}
      (related : ∀ wanted contour, Related contour (orientContour wanted contour)) :
      List.Forall₂ Related shape shape.orient := by
    cases shape with
    | nil => exact .nil
    | cons outer holes =>
        refine .cons (related true outer) ?_
        rw [List.forall₂_map_right_iff, List.forall₂_same]
        exact fun hole _ => related false hole
  refine ⟨each orientContour_eq_or, oriented_orient shape,
    each abs_area_orientContour, ?_, ?_⟩
  · intro before after
    simp [totalArea, area_orient]
  · intro extended
    rw [orient_orient_iff]
    intro outer isOuter zero
    exact absurd zero (extended outer (List.mem_of_mem_head? isOuter))

noncomputable def turnedFrame : Shape ℝ :=
  [[⟨0.0, 0.0⟩, ⟨0.0, 4.0⟩, ⟨4.0, 4.0⟩, ⟨4.0, 0.0⟩],
    [⟨1.0, 1.0⟩, ⟨2.0, 1.0⟩, ⟨2.0, 2.0⟩, ⟨1.0, 2.0⟩]]

theorem orient_turns_contours_frame :
    turnedFrame.map Contour.area = [-16, 1] ∧
      (∀ contour ∈ turnedFrame, contour.area ≠ 0) ∧
      turnedFrame.orient = turnedFrame.map List.reverse ∧
      turnedFrame.orient.orient = turnedFrame.orient := by
  have outer : Contour.area [⟨0.0, 0.0⟩, ⟨0.0, 4.0⟩, ⟨4.0, 4.0⟩,
      ⟨(4.0 : ℝ), 0.0⟩] = -16 := by
    norm_num [Contour.area, Contour.edges, Contour.cross]
  have hole : Contour.area [⟨1.0, 1.0⟩, ⟨2.0, 1.0⟩, ⟨2.0, 2.0⟩,
      ⟨(1.0 : ℝ), 2.0⟩] = 1 := by
    norm_num [Contour.area, Contour.edges, Contour.cross]
  have extended : ∀ contour ∈ turnedFrame, contour.area ≠ 0 := by
    simp [turnedFrame, outer, hole]
  refine ⟨by simp [turnedFrame, outer, hole], extended, ?_,
    (orient_turns_contours turnedFrame).2.2.2.2 extended⟩
  simp [turnedFrame, orient, orientContour_true, orientContour_false, outer, hole]

end Shape

end Photoplot
