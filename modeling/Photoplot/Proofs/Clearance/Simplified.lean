import Photoplot.Proofs.Binary64.Length
import Photoplot.Proofs.Clearance.Thinning
import Photoplot.Proofs.Geometry.Distance

/-! # Simplified contours

A contour that was simplified stays as it is. Measured exactly, every vertex that was left
out is near enough to one that stays: it was near the one that was kept before it, and
that one, if it was taken off with the end, was near the first one. -/

namespace Photoplot.Clearance

variable {K : Type} [PlaneScalar K]

/-! ## Nothing more to leave out -/

theorem thinAfter_eq_self {last : Point K} {points : List (Point K)}
    (apart : (last :: points).IsChain fun first second => near second first = false) :
    thinAfter last points = points := by
  induction points generalizing last with
  | nil => rfl
  | cons point rest induction =>
      rcases List.isChain_cons_cons.mp apart with ⟨notNear, further⟩
      rw [thinAfter, notNear, if_neg Bool.false_ne_true, induction further]

theorem trimEnd_eq_self {first : Point K} {points : List (Point K)}
    (apart : ∀ last ∈ points.getLast?, near first last = false) :
    trimEnd first points = points := by
  rw [trimEnd, List.reverse_eq_iff, List.dropWhile_eq_self_iff]
  intro some
  apply Bool.eq_false_iff.mp
  apply apart
  rw [← List.head?_reverse, List.head?_eq_getElem?]
  exact List.getElem?_eq_getElem some

theorem simplifyContour_idempotent {given kept : Contour K}
    (simplified : simplifyContour? given = some kept) :
    simplifyContour? kept = some kept := by
  cases given with
  | nil => cases simplified
  | cons first rest =>
      rcases simplifyContour_cons_iff.mp simplified with ⟨rfl, enough⟩
      have around := isChain_simplifyContour simplified
      have thinned : thinAfter first (trimEnd first (thinAfter first rest)) =
          trimEnd first (thinAfter first rest) :=
        thinAfter_eq_self (List.IsChain.left_of_append around)
      have trimmed :=
          trimEnd_eq_self (not_near_getLast_trimEnd first (thinAfter first rest))
      refine simplifyContour_cons_iff.mpr ⟨?_, enough⟩
      rw [thinned, trimmed]

/-! ## What is left out -/

/-- A vertex is kept, or it is near the last one that was. -/
theorem exists_near_thinAfter (last : Point K) (points : List (Point K)) :
    ∀ point ∈ points, ∃ keeper ∈ last :: thinAfter last points,
      point = keeper ∨ near point keeper = true := by
  induction points generalizing last with
  | nil => exact fun point isPoint => absurd isPoint List.not_mem_nil
  | cons next rest induction =>
      intro point isPoint
      rw [thinAfter]
      split
      · rename_i isNear
        rcases List.mem_cons.mp isPoint with rfl | later
        · exact ⟨last, List.mem_cons_self, .inr isNear⟩
        · exact induction last point later
      · rcases List.mem_cons.mp isPoint with rfl | later
        · exact ⟨point, by simp, .inl rfl⟩
        · rcases induction next point later with ⟨keeper, isKeeper, close⟩
          exact ⟨keeper, List.mem_cons_of_mem last isKeeper, close⟩

/-- A vertex and the one that it was merged into are near each other, and so are that one
and the first one if it was taken off. -/
theorem distance_lt_of_simplifyContour {given kept : Contour ℝ}
    (simplified : simplifyContour? given = some kept) :
    ∀ vertex ∈ given, ∃ keeper ∈ kept, vertex.distance keeper < 2 * tolerance := by
  have positive : (0 : ℝ) < tolerance := by norm_num [tolerance]
  cases given with
  | nil => cases simplified
  | cons first rest =>
      rcases simplifyContour_cons_iff.mp simplified with ⟨rfl, -⟩
      rcases exists_trimEnd_append first (thinAfter first rest) with
          ⟨others, whole, close⟩
      intro vertex isVertex
      have merged : ∃ keeper ∈ first :: thinAfter first rest,
          vertex.distance keeper < tolerance := by
        rcases List.mem_cons.mp isVertex with rfl | later
        · exact ⟨vertex, List.mem_cons_self, by rwa [Point.distance_self]⟩
        · rcases exists_near_thinAfter first rest vertex later with
              ⟨keeper, isKeeper, rfl | near⟩
          · exact ⟨vertex, isKeeper, by rwa [Point.distance_self]⟩
          · exact ⟨keeper, isKeeper, of_decide_eq_true near⟩
      rcases merged with ⟨keeper, isKeeper, near⟩
      rw [← whole, ← List.cons_append] at isKeeper
      rcases List.mem_append.mp isKeeper with stays | taken
      · exact ⟨keeper, stays, by linarith⟩
      · refine ⟨first, List.mem_cons_self, ?_⟩
        have back : first.distance keeper < tolerance :=
            of_decide_eq_true (close keeper taken)
        rw [Point.distance_comm] at back
        linarith [vertex.distance_triangle keeper first]

/-! ## Simplified at once -/

theorem comparable_distance {left right : Point Float} (finite : left.IsFinite = true)
    (otherFinite : right.IsFinite = true) :
    left.distance right ≤ left.distance right := by
  rw [Point.IsFinite, Bool.and_eq_true] at finite otherFinite
  apply Binary64.comparable_hypot
  · exact Binary64.comparable_sub finite.1 (Binary64.comparable_of_isFinite otherFinite.1)
  · exact Binary64.comparable_sub finite.2 (Binary64.comparable_of_isFinite otherFinite.2)

/-- Where the distance of any two vertices is a number, those that stay are apart. -/
theorem Thinned.tolerance_le {given kept : Contour K} (thinned : Thinned given kept)
    (measured : ∀ vertex ∈ given, ∀ other ∈ given,
      vertex.distance other ≤ vertex.distance other) :
    ∀ edge ∈ kept.edges, tolerance ≤ edge.2.distance edge.1 := by
  intro edge isEdge
  have starts : edge.1 ∈ given := thinned.sublist.subset (List.of_mem_zip isEdge).1
  have ends : edge.2 ∈ given := by
    apply thinned.sublist.subset
    rcases List.mem_append.mp (List.of_mem_zip isEdge).2 with later | first
    · exact List.mem_of_mem_tail later
    · exact List.mem_of_mem_head? (Option.mem_toList.mp first)
  exact (thinned.apart edge isEdge).resolve_right
    (not_not.mpr (measured edge.2 ends edge.1 starts))

/-- Simplification leaves out all it can at once. Finite vertices of what it keeps are
apart; measured exactly, nothing is left out far from them. -/
theorem simplifyContour_settles (given : Contour Float) (exact : Contour ℝ) :
    (∀ kept, simplifyContour? given = some kept →
      Thinned given kept ∧ simplifyContour? kept = some kept ∧
      ((∀ vertex ∈ given, vertex.IsFinite = true) →
        ∀ edge ∈ kept.edges, tolerance ≤ edge.2.distance edge.1)) ∧
    ∀ kept, simplifyContour? exact = some kept →
      Thinned exact kept ∧ simplifyContour? kept = some kept ∧
      (∀ edge ∈ kept.edges, tolerance ≤ edge.2.distance edge.1) ∧
      ∀ vertex ∈ exact, ∃ keeper ∈ kept, vertex.distance keeper < 2 * tolerance := by
  constructor
  · intro kept simplified
    have thinned := thinned_simplifyContour (by decide) simplified
    refine ⟨thinned, simplifyContour_idempotent simplified, fun finite => ?_⟩
    exact thinned.tolerance_le fun vertex isVertex other isOther =>
      comparable_distance (finite vertex isVertex) (finite other isOther)
  · intro kept simplified
    have thinned := thinned_simplifyContour le_rfl simplified
    refine ⟨thinned, simplifyContour_idempotent simplified, ?_,
      distance_lt_of_simplifyContour simplified⟩
    exact thinned.tolerance_le fun _ _ _ _ => le_rfl

/-- Where no distance can be measured, equal vertices stay. -/
theorem not_forall_simplified_apart :
    ¬∀ given kept : Contour Float, simplifyContour? given = some kept →
      ∀ edge ∈ kept.edges, tolerance ≤ edge.2.distance edge.1 := by
  intro all
  have far := all (List.replicate 3 ⟨0.0, Binary64.infinity⟩)
    (List.replicate 3 ⟨0.0, Binary64.infinity⟩) (by decide +kernel)
  revert far
  decide +kernel

end Photoplot.Clearance
