import Photoplot.Proofs.Plot.Round
import Photoplot.Proofs.Plot.Subpaths

/-! # Subpaths and contours

An object is drawn as subpaths and filled as contours, one subpath for each contour. The
ring of a full circle is where the two may differ: its path has an edge unless the radius
is below the degenerate length, its shape has a hole only if the radius is above that,
and its outer contour in any case. A plot can be cut into groups of closed subpaths that
go with its shapes exactly if such rings make up for each other. -/

namespace Photoplot

namespace Path

variable {K : Type}

def Primitive.completes : Primitive K → Bool
  | .close | .polygon _ | .circle .. => true
  | _ => false

def subpathCount (primitives : List (Primitive K)) : ℕ :=
    primitives.countP Primitive.completes

theorem subpathCount_append (first second : List (Primitive K)) :
    subpathCount (first ++ second) = subpathCount first + subpathCount second :=
  List.countP_append

theorem subpathCount_edges {edges : List (Primitive K)}
    (areEdges : ∀ edge ∈ edges, edge.IsEdge) :
    subpathCount edges = 0 := by
  refine List.countP_eq_zero.mpr ?_
  intro edge member
  have isEdge := areEdges edge member
  cases edge with
  | lineTo | arcTo => exact Bool.false_ne_true
  | _ => exact isEdge.elim

theorem subpathCount_outline (start : Point K) {edges : List (Primitive K)}
    (areEdges : ∀ edge ∈ edges, edge.IsEdge) :
    subpathCount (.moveTo start :: (edges ++ [.close])) = 1 := by
  have none := subpathCount_edges areEdges
  rw [← List.cons_append, subpathCount_append]
  simpa [subpathCount, List.countP_cons, Primitive.completes] using none

def CutsAt (row : List (Primitive K)) (count : ℕ) : Prop :=
  ∃ first rest, first ++ rest = row ∧ ClosedRow first ∧ ClosedRow rest ∧
    subpathCount first = count

theorem CutsAt.behind {figure row : List (Primitive K)} (closed : ClosedRow figure)
    (one : subpathCount figure = 1) (later : ClosedRow row)
    (cuts : ∀ {count : ℕ}, count ≤ subpathCount row → CutsAt row count) {count : ℕ}
    (enough : count ≤ subpathCount (figure ++ row)) : CutsAt (figure ++ row) count := by
  cases count with
  | zero => exact ⟨[], _, rfl, .nil, closed.append later, rfl⟩
  | succ count =>
      rw [subpathCount_append, one, Nat.add_comm 1] at enough
      rcases cuts (Nat.le_of_succ_le_succ enough) with
        ⟨first, rest, rfl, firstClosed, restClosed, rfl⟩
      refine ⟨figure ++ first, rest, List.append_assoc .., closed.append firstClosed,
        restClosed, ?_⟩
      rw [subpathCount_append, one, Nat.add_comm]

/-- A row of closed figures can be cut behind any of its subpaths. -/
theorem ClosedRow.cutsAt {row : List (Primitive K)} (closed : ClosedRow row) {count : ℕ}
    (enough : count ≤ subpathCount row) : CutsAt row count := by
  induction closed generalizing count with
  | nil => exact ⟨[], [], rfl, .nil, .nil, (Nat.le_zero.mp enough).symm⟩
  | polygon corners later induction =>
      exact CutsAt.behind (.polygon corners .nil) rfl later induction enough
  | circle later induction =>
      exact CutsAt.behind (.circle .nil) rfl later induction enough
  | @outline start edges rest some areEdges later induction =>
      have regrouped : Primitive.moveTo start :: (edges ++ .close :: rest) =
          (.moveTo start :: (edges ++ [.close])) ++ rest := by simp
      rw [regrouped] at enough ⊢
      exact CutsAt.behind (.outline start some areEdges .nil)
        (subpathCount_outline start areEdges)
        later induction enough

theorem ClosedRow.eq_nil {row : List (Primitive K)} (closed : ClosedRow row)
    (none : subpathCount row = 0) : row = [] := by
  cases closed with
  | nil => rfl
  | _ => simp [subpathCount, List.countP_cons, Primitive.completes] at none

/-! ## Groups -/

/-- The row is made of one group for each shape, of closed subpaths, as many as the shape
has contours. -/
def FallsInto (row : List (Primitive K)) (shapes : List (Shape K)) : Prop :=
  ∃ groups : List (List (Primitive K)), groups.flatten = row ∧
    List.Forall₂ (fun group shape => ClosedRow group ∧ subpathCount group = shape.length)
      groups shapes

theorem FallsInto.subpathCount_eq {row : List (Primitive K)} {shapes : List (Shape K)}
    (falls : FallsInto row shapes) : subpathCount row = shapes.flatten.length := by
  rcases falls with ⟨groups, rfl, paired⟩
  induction paired with
  | nil => rfl
  | cons first later induction =>
      rw [List.flatten_cons, List.flatten_cons, subpathCount_append, List.length_append,
        first.2, induction]

/-- Only the numbers matter, since closed subpaths can be cut anywhere between them. -/
theorem ClosedRow.fallsInto_iff {row : List (Primitive K)} (closed : ClosedRow row)
    (shapes : List (Shape K)) :
    FallsInto row shapes ↔ subpathCount row = shapes.flatten.length := by
  refine ⟨FallsInto.subpathCount_eq, fun same => ?_⟩
  induction shapes generalizing row with
  | nil => exact ⟨[], (closed.eq_nil same).symm, .nil⟩
  | cons shape others induction =>
      rw [List.flatten_cons, List.length_append] at same
      have enough : shape.length ≤ subpathCount row := by omega
      rcases closed.cutsAt enough with ⟨first, rest, rfl, firstClosed, restClosed, count⟩
      rw [subpathCount_append, count] at same
      rcases induction restClosed (Nat.add_left_cancel same) with ⟨groups, rfl, paired⟩
      exact ⟨first :: groups, rfl, .cons ⟨firstClosed, count⟩ paired⟩

end Path

/-! ## Objects -/

def PlottedObject.Agrees {K : Type} (object : PlottedObject K) : Prop :=
  Path.subpathCount object.primitives = object.shape.length

namespace Canvas

section

variable {K : Type} [PlaneScalar K]

theorem Outline.subpathCount_subpath (outline : Outline K) :
    Path.subpathCount outline.subpath = 1 := by
  cases outline with
  | nil => rfl
  | cons first rest =>
      exact Path.subpathCount_outline first.start (isEdge_primitives (first :: rest))

theorem Sketch.agrees (sketch : Sketch K) :
    PlottedObject.Agrees ⟨sketch.path, sketch.shape⟩ := by
  have counted (outlines : List (Outline K)) :
      Path.subpathCount (outlines.flatMap Outline.subpath) = outlines.length := by
    induction outlines with
    | nil => rfl
    | cons outline rest induction =>
        rw [List.flatMap_cons, Path.subpathCount_append, outline.subpathCount_subpath,
          induction, List.length_cons, Nat.add_comm]
  rw [PlottedObject.Agrees, Sketch.path, counted, Sketch.shape, List.length_map]

end

end Canvas

/-! ## Rings -/

namespace Arc

/-- The inner edge of the ring has a radius on the limit: it is drawn, and is no hole. -/
def KeepsHairline (arc : Arc ℝ) (width : ℝ) : Prop :=
  arc.isFullCircle = true ∧ arc.innerRadius width = degenerateLength

/-- The outer edge of the ring is not drawn, though it is filled. -/
def LosesRim (arc : Arc ℝ) (width : ℝ) : Prop :=
  arc.isFullCircle = true ∧ arc.outerRadius width < degenerateLength

/-- No draw follows an arc with a radius below the limit, so that only a negative width
can bring the outer radius below it. -/
theorem LosesRim.width_neg {arc : Arc ℝ} {width : ℝ} (loses : arc.LosesRim width)
    (extent : degenerateLength ≤ arc.radius) : width < 0 := by
  have outer := loses.2
  rw [outerRadius, Exact.two_eq] at outer
  linarith

noncomputable instance (arc : Arc ℝ) (width : ℝ) : Decidable (arc.KeepsHairline width) :=
  inferInstanceAs (Decidable (_ ∧ _ = _))

noncomputable instance (arc : Arc ℝ) (width : ℝ) : Decidable (arc.LosesRim width) :=
  inferInstanceAs (Decidable (_ ∧ _ < _))

end Arc

namespace Canvas

theorem subpathCount_circleSubpath (arc : Arc ℝ) (radius : ℝ) (sweep : Bool) :
    Path.subpathCount (circleSubpath arc radius sweep) =
      if radius < degenerateLength then 0 else 1 := by
  unfold circleSubpath
  split <;> rfl

/-- The path of a ring asks of both radii whether they are below the limit, its shape asks
of the inner one whether it is above. -/
theorem subpathCount_bandPrimitives (arc : Arc ℝ) (width : ℝ) :
    Path.subpathCount (bandPrimitives arc width) + (if arc.LosesRim width then 1 else 0) =
      (arc.band width).length + if arc.KeepsHairline width then 1 else 0 := by
  cases full : arc.isFullCircle with
  | false =>
      have drawn : Path.subpathCount (bandPrimitives arc width) = 1 := by
        simp only [bandPrimitives, full, Bool.false_eq_true, if_false]
        split <;> rfl
      simp [drawn, Arc.band, full, Arc.LosesRim, Arc.KeepsHairline]
  | true =>
      have drawn : Path.subpathCount (bandPrimitives arc width) =
          (if arc.outerRadius width < degenerateLength then 0 else 1) +
            if arc.innerRadius width < degenerateLength then 0 else 1 := by
        simp only [bandPrimitives, full, if_true, Path.subpathCount_append,
          subpathCount_circleSubpath]
      have filled : (arc.band width).length =
          (if degenerateLength < arc.innerRadius width then 1 else 0) + 1 := by
        simp only [Arc.band, full, if_true, List.length_cons]
        split <;> rfl
      simp only [drawn, filled, Arc.LosesRim, Arc.KeepsHairline, full, true_and]
      rcases lt_trichotomy (arc.innerRadius width) degenerateLength with
          below | on | above
      · rw [if_pos below, if_neg below.not_gt, if_neg below.ne]
        split <;> rfl
      · rw [if_neg on.not_lt, if_neg on.not_gt, if_pos on]
        split <;> rfl
      · rw [if_neg above.not_gt, if_pos above, if_neg above.ne']
        split <;> rfl

noncomputable def Operation.keepsHairline : Operation ℝ → Bool
  | .strokeArc _ arc width => decide (arc.KeepsHairline width)
  | _ => false

noncomputable def Operation.losesRim : Operation ℝ → Bool
  | .strokeArc _ arc width => decide (arc.LosesRim width)
  | _ => false

theorem agrees_or_ring {sketch : Sketch ℝ} {operation : Operation ℝ}
    {object : PlottedObject ℝ} (leaves : Leaves sketch operation object) :
    object.Agrees ∨ ∃ start arc width, operation = .strokeArc start arc width ∧
      object = .ofBand arc width ∧ (arc.KeepsHairline width ∨ arc.LosesRim width) := by
  cases leaves with
  | contour corners => exact .inl rfl
  | circle center radius => exact .inl rfl
  | band start arc width =>
      by_cases ring : arc.KeepsHairline width ∨ arc.LosesRim width
      · exact .inr ⟨start, arc, width, rfl, rfl, ring⟩
      · have counted := subpathCount_bandPrimitives arc width
        rw [not_or] at ring
        rw [if_neg ring.1, if_neg ring.2] at counted
        exact .inl counted
  | region some => exact .inl sketch.agrees

theorem subpathCount_of_agrees {objects : List (PlottedObject ℝ)}
    (agrees : ∀ object ∈ objects, object.Agrees) :
    Path.subpathCount (objects.flatMap PlottedObject.primitives) =
      (objects.flatMap PlottedObject.shape).length := by
  induction objects with
  | nil => rfl
  | cons object rest induction =>
      rw [List.forall_mem_cons] at agrees
      rw [List.flatMap_cons, List.flatMap_cons, Path.subpathCount_append,
        List.length_append, agrees.1, induction agrees.2]

theorem subpathCount_objects (sketch : Sketch ℝ) (operation : Operation ℝ) :
    Path.subpathCount ((operation.objects sketch).flatMap PlottedObject.primitives) +
        (if operation.losesRim then 1 else 0) =
      ((operation.objects sketch).flatMap PlottedObject.shape).length +
        if operation.keepsHairline then 1 else 0 := by
  cases operation with
  | strokeArc start arc width =>
      simpa [Operation.objects, PlottedObject.ofBand, Operation.losesRim,
        Operation.keepsHairline] using subpathCount_bandPrimitives arc width
  | _ =>
      refine subpathCount_of_agrees fun object left => ?_
      rcases agrees_or_ring (leaves_of_mem_objects left) with agrees | ⟨_, _, _, isArc, -⟩
      · exact agrees
      · cases isArc

theorem subpathCount_objectsOf (sketch : Sketch ℝ) (operations : List (Operation ℝ)) :
    Path.subpathCount ((objectsOf sketch operations).flatMap PlottedObject.primitives) +
        operations.countP Operation.losesRim =
      ((objectsOf sketch operations).flatMap PlottedObject.shape).length +
        operations.countP Operation.keepsHairline := by
  induction operations generalizing sketch with
  | nil => rfl
  | cons operation rest induction =>
      have own := subpathCount_objects sketch operation
      have later := induction (sketch.draw operation)
      rw [objectsOf, List.flatMap_append, List.flatMap_append, Path.subpathCount_append,
        List.length_append, List.countP_cons, List.countP_cons]
      omega

end Canvas

/-! ## Plots -/

def Plot.Grouped {K : Type} (plot : Plot K) : Prop :=
    Path.FallsInto plot.primitives plot.shapes

namespace Machine

open Canvas (Operation)

theorem grouped_iff_countP (commands : List (Command ℝ)) :
    (plot commands).value.Grouped ↔
      (start.trace commands).countP Operation.losesRim =
        (start.trace commands).countP Operation.keepsHairline := by
  have holds := hasObjects_plot commands
  have counted := Canvas.subpathCount_objectsOf .empty (start.trace commands)
  rw [Plot.Grouped, (closedRow_plot commands).fallsInto_iff, holds.primitives,
    holds.shapes, ← List.flatMap_def]
  change Path.subpathCount ((objects commands).flatMap PlottedObject.primitives) + _ =
    ((objects commands).flatMap PlottedObject.shape).length + _ at counted
  omega

/-- A plot is made of objects, in the order of the commands. Each of them is drawn with
closed subpaths, as many as its shape has contours, unless it is the ring of a full circle
whose inner radius is on the limit or, with a negative width, whose outer radius is below
it. The primitives can be cut into groups for the shapes if and only if there are as many
rings of the one kind as of the other. -/
theorem grouped_plot (commands : List (Command ℝ)) :
    (plot commands).value.HasObjects (objects commands) ∧
      (∀ object ∈ objects commands, Path.ClosedRow object.primitives ∧
        (object.Agrees ∨ ∃ begun arc width,
          .strokeArc begun arc width ∈ start.trace commands ∧ object = .ofBand arc width ∧
            (arc.KeepsHairline width ∨ width < 0 ∧ arc.LosesRim width))) ∧
      ((plot commands).value.Grouped ↔
        (start.trace commands).countP Operation.losesRim =
          (start.trace commands).countP Operation.keepsHairline) := by
  refine ⟨hasObjects_plot commands, fun object member => ⟨closedRow_object member, ?_⟩,
    grouped_iff_countP commands⟩
  rcases Canvas.exists_leaves_of_mem_objectsOf member with
      ⟨operation, isTrace, sketch, leaves⟩
  rcases Canvas.agrees_or_ring leaves with agrees | ⟨begun, arc, width, rfl, isBand, ring⟩
  · exact .inl agrees
  · refine .inr ⟨begun, arc, width, isTrace, isBand,
      ring.imp_right fun loses => ⟨?_, loses⟩⟩
    rcases exists_issues_of_mem_trace isTrace with ⟨current, command, issues⟩
    cases issues with
    | strokeArc closed dark taken resolved =>
        exact loses.width_neg (Arc.joins_of_arc resolved).extent

noncomputable def ringBoard (radius width : ℝ) : List (Command ℝ) :=
  [.defineAperture 10 (.circle width), .select 10, .counterclockwise,
    .operation ⟨none, none, some (.decimal radius), none⟩ (some .draw)]

theorem trace_ringBoard {radius width : ℝ} (extent : degenerateLength ≤ radius) :
    ∃ arc : Arc ℝ, start.trace (ringBoard radius width) = [.strokeArc ⟨0, 0⟩ arc width] ∧
      arc.isFullCircle = true ∧ arc.radius = radius := by
  have length : (⟨0, 0⟩ : Point ℝ).distance ⟨radius, 0⟩ = radius := by
    rw [Point.distance_along, zero_sub, abs_neg,
      abs_of_nonneg (Arc.degenerateLength_pos.le.trans extent)]
  have found : ∃ arc,
      Arc.resolve? .multi false ⟨0, 0⟩ ⟨0, 0⟩ (⟨radius, 0⟩ : Point ℝ) = some arc ∧
      arc.center = ⟨radius, 0⟩ ∧ arc.radius = (⟨0, 0⟩ : Point ℝ).distance ⟨radius, 0⟩ :=
    Arc.exists_resolve (by norm_num) (extent.trans length.ge)
  rcases found with ⟨arc, resolved, -, reach⟩
  have about : Arc.about? false (⟨0, 0⟩ : Point ℝ) ⟨0, 0⟩ ⟨0 + radius, 0 + 0⟩ =
      some arc := resolved
  have closed : (⟨0, 0⟩ : Point ℝ).distance ⟨0, 0⟩ < 1e-9 := by
    rw [Point.distance_self]
    exact Arc.degenerateLength_pos
  have ends := (Arc.end_of_about about).2.2.2.2
  rw [if_pos closed] at ends
  refine ⟨arc, ?_, ends.1, reach.trans length⟩
  simp [trace, ringBoard, operations, start, Modes.start, step, execute, moved,
    drawOperations, arc?, Modes.advance, Modes.target, Point.origin, Exact.zero_eq,
    Exact.one_eq, Modes.offsets, resolved, Decoder.decode, Decoder.value,
    Decoder.toMillimeters, Decoder.start, Units.scale, Apertures.define,
    Apertures.strokeWidth, ApertureShape.scaled, Table.contains]

/-- A ring whose inner radius is the limit itself has two subpaths and one contour. -/
theorem not_forall_grouped : ¬∀ commands :
    List (Command ℝ), (plot commands).value.Grouped := by
  intro always
  rcases @trace_ringBoard 2e-9 2e-9 (by norm_num [degenerateLength]) with
    ⟨arc, drawn, full, reach⟩
  have inner : arc.innerRadius 2e-9 = degenerateLength := by
    rw [Arc.innerRadius, reach]
    norm_num [degenerateLength, Scalar.greater_eq_max]
  have outer : ¬arc.outerRadius 2e-9 < degenerateLength := by
    rw [Arc.outerRadius, reach]
    norm_num [degenerateLength]
  have grouped := (grouped_iff_countP _).mp (always (ringBoard 2e-9 2e-9))
  rw [drawn] at grouped
  simp [Operation.losesRim, Operation.keepsHairline, Arc.LosesRim, Arc.KeepsHairline,
    full, inner, outer] at grouped

end Machine

end Photoplot
