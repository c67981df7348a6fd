import Photoplot.Proofs.Scalar.Exact
import Photoplot.Clearance

/-! # Winding numbers

How often contours go around a point, and how often a ray that leaves the point
meets them. The ray goes to the right; an edge that leaves its lower end upwards
counts there and not at its upper end, so that a vertex is met once. -/

namespace Photoplot

namespace Point

/-- Twice the area of the triangle that a point spans with an edge, positive if
the point lies to the left of the edge. -/
def side (point : Point ℝ) (edge : Point ℝ × Point ℝ) : ℝ :=
  (edge.2.x - edge.1.x) * (point.y - edge.1.y) -
    (point.x - edge.1.x) * (edge.2.y - edge.1.y)

open Classical in
noncomputable def crossing (point : Point ℝ) (edge : Point ℝ × Point ℝ) : ℤ :=
  if edge.1.y ≤ point.y ∧ point.y < edge.2.y ∧ 0 < point.side edge then 1
  else if edge.2.y ≤ point.y ∧ point.y < edge.1.y ∧ point.side edge < 0 then -1
  else 0

noncomputable def winding (point : Point ℝ) (contour : Contour ℝ) : ℤ :=
  (contour.edges.map point.crossing).sum

noncomputable def windingShape (point : Point ℝ) (shape : Shape ℝ) : ℤ :=
  (shape.map point.winding).sum

noncomputable def windingAll (point : Point ℝ) (shapes : List (Shape ℝ)) : ℤ :=
  (shapes.map point.windingShape).sum

/-- How many edges of a shape the ray meets. Its parity decides what is inside
when a shape is filled by parity. -/
noncomputable def crossings (point : Point ℝ) (shape : Shape ℝ) : ℕ :=
  (shape.flatMap Contour.edges).countP fun edge => decide (point.crossing edge ≠ 0)

def OnEdge (point : Point ℝ) (edge : Point ℝ × Point ℝ) : Prop :=
  ∃ ratio : ℝ, 0 ≤ ratio ∧ ratio ≤ 1 ∧
    point.x = edge.1.x + ratio * (edge.2.x - edge.1.x) ∧
    point.y = edge.1.y + ratio * (edge.2.y - edge.1.y)

def OffEdges (point : Point ℝ) (shape : Shape ℝ) : Prop :=
  ∀ contour ∈ shape, ∀ edge ∈ contour.edges, ¬point.OnEdge edge

def Covered (point : Point ℝ) (shapes : List (Shape ℝ)) : Prop :=
    point.windingAll shapes ≠ 0

end Point

/-! ## Edges of a contour turned around -/

namespace Contour

def links (chain : List (Point ℝ)) : List (Point ℝ × Point ℝ) := chain.zip chain.tail

theorem links_cons_cons (first second : Point ℝ) (rest : List (Point ℝ)) :
    links (first :: second :: rest) = (first, second) :: links (second :: rest) := rfl

theorem links_append_singleton (chain : List (Point ℝ)) (last added : Point ℝ) :
    links (chain ++ [last, added]) = links (chain ++ [last]) ++ [(last, added)] := by
  induction chain with
  | nil => rfl
  | cons first rest induction =>
      cases rest with
      | nil => rfl
      | cons second rest =>
          simp only [List.cons_append, links_cons_cons] at induction ⊢
          rw [induction]

/-- Going back along a chain gives the same edges, each turned around. -/
theorem links_reverse (chain : List (Point ℝ)) :
    links chain.reverse = (links chain).reverse.map Prod.swap := by
  induction chain with
  | nil => rfl
  | cons first rest induction =>
      cases rest with
      | nil => rfl
      | cons second rest =>
          rw [List.reverse_cons] at induction
          rw [links_cons_cons, List.reverse_cons, List.reverse_cons, List.append_assoc,
            List.singleton_append, links_append_singleton, induction]
          simp

theorem edges_cons (first : Point ℝ) (rest : List (Point ℝ)) :
    edges (first :: rest) = links (first :: rest ++ [first]) := by
  have same : (first :: rest).length = (rest ++ [first]).length := by simp
  have cut := @List.zip_append _ _ (first :: rest) [first] (rest ++ [first]) [] same
  simpa [edges, links] using cut.symm

/-- A contour turned around has the same edges, turned around. -/
theorem edges_reverse_perm (contour : Contour ℝ) :
    (edges contour.reverse).Perm ((edges contour).map Prod.swap) := by
  cases contour with
  | nil => exact .nil
  | cons first rest =>
      rcases rest.eq_nil_or_concat with empty | ⟨middle, last, rfl⟩
      · subst empty
        exact .refl _
      · have forward : (edges (first :: (middle ++ [last]))).map Prod.swap =
            (links (first :: last :: middle.reverse ++ [first])).reverse := by
          have turned := links_reverse (first :: (middle ++ [last]) ++ [first])
          rw [edges_cons, ← List.reverse_reverse (List.map _ _), ← List.map_reverse,
            ← turned]
          simp
        have backward : edges (first :: (middle ++ [last])).reverse =
            links (last :: middle.reverse ++ [first]) ++ [(first, last)] := by
          rw [List.reverse_cons, List.reverse_append, List.reverse_singleton,
            List.singleton_append, List.cons_append, edges_cons]
          have regrouped : last :: (middle.reverse ++ [first]) ++ [last] =
              (last :: middle.reverse) ++ [first, last] := by simp
          rw [regrouped, links_append_singleton, List.cons_append]
        rw [List.concat_eq_append, forward, backward]
        exact (List.perm_append_singleton _ _).trans (List.reverse_perm _).symm

end Contour

/-! ## Windings and crossings -/

namespace Point

theorem side_swap (point : Point ℝ) (edge : Point ℝ × Point ℝ) :
    point.side edge.swap = -point.side edge := by
  simp only [side, Prod.fst_swap, Prod.snd_swap]
  ring

theorem crossing_swap (point : Point ℝ) (edge : Point ℝ × Point ℝ) :
    point.crossing edge.swap = -point.crossing edge := by
  simp only [crossing, side_swap, Prod.fst_swap, Prod.snd_swap, Left.neg_pos_iff,
    Left.neg_neg_iff]
  by_cases up : edge.1.y ≤ point.y ∧ point.y < edge.2.y ∧ 0 < point.side edge
  · have notDown : ¬(edge.2.y ≤ point.y ∧ point.y < edge.1.y ∧ point.side edge < 0) :=
      fun down => absurd up.2.2 (not_lt.mpr down.2.2.le)
    simp [up, notDown]
  · by_cases down : edge.2.y ≤ point.y ∧ point.y < edge.1.y ∧ point.side edge < 0 <;>
      simp [up, down]

theorem winding_reverse (point : Point ℝ) (contour : Contour ℝ) :
    point.winding contour.reverse = -point.winding contour := by
  have turned := ((Contour.edges_reverse_perm contour).map point.crossing).sum_eq
  have negated : point.crossing ∘ Prod.swap = Neg.neg ∘ point.crossing :=
    funext point.crossing_swap
  rw [winding, turned, List.map_map, negated, ← List.map_map, ← List.sum_neg, winding]

/-- A contour that is turned the right way winds the one way or the other. -/
theorem winding_orientContour (point : Point ℝ) (wanted : Bool) (contour : Contour ℝ) :
    point.winding (Shape.orientContour wanted contour) = point.winding contour ∨
      point.winding (Shape.orientContour wanted contour) = -point.winding contour := by
  unfold Shape.orientContour
  split
  · exact .inl rfl
  · exact .inr (point.winding_reverse contour)

/-- Every crossing counts once, so the parity of their sum is that of their
number. -/
theorem odd_sum_crossing_iff (point : Point ℝ) (edges : List (Point ℝ × Point ℝ)) :
    Odd (edges.map point.crossing).sum ↔
      Odd (edges.countP fun edge => decide (point.crossing edge ≠ 0)) := by
  induction edges with
  | nil => simp
  | cons edge rest induction =>
      have single : Odd (point.crossing edge) ↔ point.crossing edge ≠ 0 := by
        unfold crossing
        split
        · simp
        · split <;> simp
      rw [List.map_cons, List.sum_cons, Int.odd_add, List.countP_cons]
      by_cases counts : point.crossing edge = 0
      · simpa [counts] using induction
      · have met := single.mpr counts
        simp only [counts, ne_eq, not_false_eq_true, decide_true, if_true,
          Nat.odd_add_one, ← induction, met, true_iff, Int.not_odd_iff_even]

/-- Going around an odd number of times is meeting the ray an odd number of
times. -/
theorem odd_windingShape_iff (point : Point ℝ) (shape : Shape ℝ) :
    Odd (point.windingShape shape) ↔ Odd (point.crossings shape) := by
  have summed : point.windingShape shape =
      ((shape.flatMap Contour.edges).map point.crossing).sum := by
    induction shape with
    | nil => rfl
    | cons contour rest induction =>
        rw [windingShape, List.map_cons, List.sum_cons, List.flatMap_cons,
          List.map_append, List.sum_append, ← induction]
        rfl
  rw [summed, odd_sum_crossing_iff, crossings]

end Point

end Photoplot
