import Photoplot.Proofs.Binary64.Sum
import Photoplot.Proofs.Plot.Round
import Photoplot.Proofs.Plot.Subpaths

/-! # Primitives and shapes together

Every object of a plot has a shape and at least one primitive, so that the path of
the copper and the shapes that a clearance is cut from are empty together. The one
object whose primitives could all be left out is the ring of a full circle: its two
edges are never both without an extent. -/

namespace Photoplot

def Plot.Paired {K : Type} (plot : Plot K) : Prop :=
    plot.primitives = [] ↔ plot.shapes = []

theorem Plot.HasObjects.paired {K : Type} {plot : Plot K}
    {objects : List (PlottedObject K)} (holds : plot.HasObjects objects)
    (drawn : ∀ object ∈ objects, object.primitives ≠ []) :
    plot.Paired := by
  rw [Paired, holds.primitives, holds.shapes]
  cases objects with
  | nil => simp
  | cons first rest => simp [drawn first List.mem_cons_self]

namespace Canvas

/-- The path of a region with a contour has at least the step that closes it. -/
theorem Sketch.path_ne_nil {K : Type} [PlaneScalar K] {sketch : Sketch K}
    (some : sketch.shape ≠ []) : sketch.path ≠ [] := by
  cases kept : sketch.kept with
  | nil => simp [Sketch.shape, kept] at some
  | cons first rest => simp [Sketch.path, kept, Outline.subpath]

/-! ## Rings -/

/-- One of the two edges of a ring is at least as far out as the middle one: the outer
edge if the width is not negative, the inner edge if it is. -/
theorem bandPrimitives_ne_nil_of_not_lt {arc : Arc Float} {width : Float}
    (extent : ¬arc.radius < degenerateLength) : bandPrimitives arc width ≠ [] := by
  have zero : (0.0 : Float) ≤ degenerateLength := by decide +kernel
  have bound : (degenerateLength : Float) ≤ degenerateLength := by decide +kernel
  simp only [bandPrimitives]
  split
  · intro none
    rcases List.append_eq_nil_iff.mp none with ⟨noOuter, noInner⟩
    have outer : arc.outerRadius width < degenerateLength := by
      by_contra some
      simp [circleSubpath, some] at noOuter
    have inner : arc.innerRadius width < degenerateLength := by
      by_contra some
      simp [circleSubpath, some] at noInner
    have comparable := Binary64.comparable_of_add
      (Scalar.Ordered.comparable_left (Scalar.Ordered.le_of_lt outer))
    have radius := Scalar.Ordered.le_of_not_lt comparable.1 bound extent
    have nonneg := Scalar.Ordered.le_trans zero radius
    by_cases widens : (0.0 : Float) ≤ width / 2.0
    · have further := Binary64.le_add_of_nonneg nonneg widens
      exact Binary64.not_lt_of_le (Scalar.Ordered.le_trans radius further) outer
    · have narrows : width / 2.0 ≤ (0.0 : Float) :=
        Scalar.Ordered.le_of_not_lt (by decide +kernel) comparable.2
          fun positive => widens (Scalar.Ordered.le_of_lt positive)
      have further :=
          Scalar.Ordered.le_trans radius (Binary64.le_sub_of_nonpos nonneg narrows)
      have kept : arc.innerRadius width = arc.radius - width / 2.0 := by
        rw [Arc.innerRadius, Scalar.greater,
          if_pos (Scalar.Ordered.comparable_right further),
          if_neg (Binary64.not_lt_of_le (Scalar.Ordered.le_trans zero further))]
      rw [kept] at inner
      exact Binary64.not_lt_of_le further inner
  · exact List.append_ne_nil_of_right_ne_nil _ (List.cons_ne_nil _ _)

end Canvas

/-! ## Runs -/

namespace Machine

open Canvas (Operation)

theorem not_radius_lt_of_arc {K : Type} [PlaneScalar K]
    {modes : Modes K} {origin : Point K} {fields : CoordinateFields K} {arc : Arc K}
    (resolved : arc? modes origin fields = some arc) :
    ¬arc.radius < degenerateLength := by
  have about : ∃ clockwise center,
      Arc.about? clockwise origin modes.position center = some arc := by
    unfold arc? at resolved
    cases interpolation : modes.interpolation with
    | linear => simp [interpolation] at resolved
    | clockwise =>
        rw [interpolation] at resolved
        exact ⟨true, Arc.exists_about resolved⟩
    | counterclockwise =>
        rw [interpolation] at resolved
        exact ⟨false, Arc.exists_about resolved⟩
  rcases about with ⟨clockwise, center, found⟩
  unfold Arc.about? at found
  split at found
  · cases found
  · rename_i extent
    rcases Option.some.inj found with rfl
    exact extent

theorem primitives_ne_nil_of_mem_objects {commands : List (Command Float)}
    {object : PlottedObject Float} (member : object ∈ objects commands) :
    object.primitives ≠ [] := by
  rcases Canvas.exists_leaves_of_mem_objectsOf member with
      ⟨operation, isTrace, sketch, leaves⟩
  cases leaves with
  | contour corners => exact List.cons_ne_nil _ _
  | circle center radius => exact List.cons_ne_nil _ _
  | band start arc width =>
      rcases exists_issues_of_mem_trace isTrace with ⟨current, command, issues⟩
      cases issues with
      | strokeArc closed dark taken resolved =>
          exact Canvas.bandPrimitives_ne_nil_of_not_lt (not_radius_lt_of_arc resolved)
  | region some => exact Canvas.Sketch.path_ne_nil some

/-- Whatever the commands, a plot has primitives exactly if it has shapes. -/
theorem paired_plot (commands : List (Command Float)) : (plot commands).value.Paired :=
  (hasObjects_plot commands).paired fun _ => primitives_ne_nil_of_mem_objects

end Machine

end Photoplot
