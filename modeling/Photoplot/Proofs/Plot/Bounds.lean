import Photoplot.Proofs.Plot.Round
import Photoplot.Proofs.Plot.Subpaths

/-! # The bounds of a plot

The box of a plot grows over a few points of each object. They are enough: the
rest of the object lies between them. Regions are the exception. An edge that does
not begin where the edge before it ended leaves a gap in its contour, and nothing
covers the point behind the gap. Such an edge is drawn when a flash has moved the
current point inside of a region. -/

namespace Photoplot

namespace Box

variable {box other : Box ℝ} {point : Point ℝ}

theorem holds_cover (box : Box ℝ) (point : Point ℝ) : (box.cover point).Holds point :=
  ⟨Span.holds_cover _ le_rfl, Span.holds_cover _ le_rfl⟩

theorem holds_coverAll (box : Box ℝ) {points : List (Point ℝ)} (member : point ∈ points) :
    (box.coverAll points).Holds point := by
  induction points generalizing box with
  | nil => cases member
  | cons first rest induction =>
      rcases List.mem_cons.mp member with rfl | later
      · exact (within_coverAll (box.cover point) rest).holds (box.holds_cover point)
      · exact induction (box.cover first) later

theorem Holds.join (holds : other.Holds point) (box : Box ℝ) :
    (box.join other).Holds point := by
  unfold Box.join
  rw [holds.nonempty]
  exact ⟨Span.within_cover_bounds _ _ _ holds.1, Span.within_cover_bounds _ _ _ holds.2⟩

/-- A box that holds two opposite corners of the square around a circle holds the
circle. -/
theorem holds_circle {center : Point ℝ} {radius : ℝ} (nonneg : 0 ≤ radius)
    (low : box.Holds ⟨center.x - radius, center.y - radius⟩)
    (high : box.Holds ⟨center.x + radius, center.y + radius⟩) (angle : ℝ) :
    box.Holds (center.polar radius angle) := by
  have bounds : ∀ part : ℝ, -1 ≤ part → part ≤ 1 → -radius ≤ radius * part ∧
      radius * part ≤ radius := by
    intro part least most
    constructor
    · nlinarith
    · nlinarith
  have across := bounds _ (Real.neg_one_le_cos angle) (Real.cos_le_one angle)
  have up := bounds _ (Real.neg_one_le_sin angle) (Real.sin_le_one angle)
  have left : center.x - radius ≤ center.x + radius * Real.cos angle := by linarith
  have right : center.x + radius * Real.cos angle ≤ center.x + radius := by linarith
  have bottom : center.y - radius ≤ center.y + radius * Real.sin angle := by linarith
  have top : center.y + radius * Real.sin angle ≤ center.y + radius := by linarith
  exact ⟨low.1.between high.1 left right, low.2.between high.2 bottom top⟩

end Box

/-! ## Objects -/

def Path.Primitive.extent : Path.Primitive ℝ → List (Point ℝ)
  | .moveTo point | .lineTo point => [point]
  | .arcTo _ _ _ finish => [finish]
  | .close => []
  | .polygon contour => contour
  | .circle center radius =>
      [⟨center.x - radius, center.y - radius⟩, ⟨center.x + radius, center.y + radius⟩]

namespace Box

def HoldsPrimitives (box : Box ℝ) (primitives : List (Path.Primitive ℝ)) : Prop :=
  ∀ primitive ∈ primitives, ∀ point ∈ primitive.extent, box.Holds point

def HoldsShape (box : Box ℝ) (shape : Shape ℝ) : Prop :=
  ∀ contour ∈ shape, ∀ point ∈ contour, box.Holds point

end Box

def Encloses (extent : List (Point ℝ)) (primitives : List (Path.Primitive ℝ))
    (shape : Shape ℝ) : Prop :=
  ∀ box : Box ℝ, (∀ point ∈ extent, box.Holds point) →
    box.HoldsPrimitives primitives ∧ box.HoldsShape shape

theorem encloses_polygon (contour : Contour ℝ) :
    Encloses contour [.polygon contour] [contour] := by
  intro box held
  constructor
  · intro primitive member point isPoint
    rcases List.mem_singleton.mp member with rfl
    exact held point isPoint
  · intro own member point isPoint
    rcases List.mem_singleton.mp member with rfl
    exact held point isPoint

theorem exists_angle_of_mem_circle {center point : Point ℝ} {radius : ℝ}
    (member : point ∈ Contour.circle center radius) :
    ∃ angle, point = center.polar radius angle := by
  rcases Arc.exists_angle_of_mem_points (List.mem_of_mem_dropLast member) with
      ⟨angle, -, isPoint⟩
  exact ⟨angle, isPoint⟩

theorem encloses_circle {center : Point ℝ} {radius : ℝ} (nonneg : 0 ≤ radius) :
    Encloses [⟨center.x - radius, center.y - radius⟩,
      ⟨center.x + radius, center.y + radius⟩]
      [.circle center radius] [Contour.circle center radius] := by
  intro box held
  constructor
  · intro primitive member point isPoint
    rcases List.mem_singleton.mp member with rfl
    exact held point isPoint
  · intro contour member point isPoint
    rcases List.mem_singleton.mp member with rfl
    rcases exists_angle_of_mem_circle isPoint with ⟨angle, rfl⟩
    exact Box.holds_circle nonneg (held _ (by simp)) (held _ (by simp)) angle

namespace Canvas

theorem innerRadius_bounds {arc : Arc ℝ} {width : ℝ} (radius : 0 ≤ arc.radius)
    (nonneg : 0 ≤ width) :
    0 ≤ arc.innerRadius width ∧ arc.innerRadius width ≤ arc.outerRadius width := by
  simp only [Arc.innerRadius, Arc.outerRadius, Scalar.greater_eq_max, Exact.two_eq,
    Exact.zero_eq]
  exact ⟨le_max_right _ _, max_le (by linarith) (by linarith)⟩

theorem holdsPrimitives_circleSubpath {box : Box ℝ} {arc : Arc ℝ}
    {radius : ℝ} {sweep : Bool}
    (everywhere : ∀ angle, box.Holds (arc.center.polar radius angle)) :
    box.HoldsPrimitives (circleSubpath arc radius sweep) := by
  intro primitive member point isPoint
  unfold circleSubpath at member
  split at member
  · cases member
  · simp only [List.mem_cons, List.not_mem_nil, or_false] at member
    rcases member with rfl | rfl | rfl | rfl
    · rcases List.mem_singleton.mp isPoint with rfl
      exact everywhere _
    · rcases List.mem_singleton.mp isPoint with rfl
      exact everywhere _
    · rcases List.mem_singleton.mp isPoint with rfl
      exact everywhere _
    · cases isPoint

section Bands

variable {arc : Arc ℝ} {width : ℝ}

theorem encloses_ring (radius : 0 ≤ arc.radius) (nonneg : 0 ≤ width)
    (full : arc.isFullCircle = true) :
    Encloses (bandExtent arc width) (bandPrimitives arc width) (arc.band width) := by
  intro box held
  rcases innerRadius_bounds radius nonneg with ⟨inner, smaller⟩
  let around : Arc ℝ := { arc with radius := arc.outerRadius width }
  have extremes : ∀ point ∈ around.extremes, box.Holds point :=
    fun point member => held point (List.mem_append_left _ member)
  have onOuter : ∀ angle, box.Holds (arc.center.polar (arc.outerRadius width) angle) :=
    @Arc.holds_polar_of_full box around _ (inner.trans smaller) le_rfl full extremes
  have onInner : ∀ angle, box.Holds (arc.center.polar (arc.innerRadius width) angle) :=
    @Arc.holds_polar_of_full box around _ inner smaller full extremes
  constructor
  · intro primitive member
    simp only [bandPrimitives, full, if_true] at member
    rcases List.mem_append.mp member with isOuter | isInner
    · exact holdsPrimitives_circleSubpath onOuter primitive isOuter
    · exact holdsPrimitives_circleSubpath onInner primitive isInner
  · intro contour member point isPoint
    simp only [Arc.band, full, if_true] at member
    rcases List.mem_cons.mp member with rfl | isHole
    · rcases exists_angle_of_mem_circle isPoint with ⟨angle, rfl⟩
      exact onOuter angle
    · split at isHole
      · rcases List.mem_singleton.mp isHole with rfl
        rcases exists_angle_of_mem_circle (List.mem_reverse.mp isPoint) with ⟨angle, rfl⟩
        exact onInner angle
      · cases isHole

/-- A vertex of a band that is no ring lies on one of its two arcs. -/
theorem mem_points_of_mem_band {contour : Contour ℝ} {point : Point ℝ}
    (unclosed : arc.isFullCircle = false) (member : contour ∈ arc.band width)
    (isPoint : point ∈ contour) :
    point ∈ Arc.points ⟨arc.center, arc.outerRadius width, arc.start, arc.sweep⟩ ∨
      point ∈ Arc.points ⟨arc.center, arc.innerRadius width, arc.start, arc.sweep⟩ := by
  simp only [Arc.band, unclosed, Bool.false_eq_true, if_false] at member
  rcases List.mem_singleton.mp member with rfl
  split at isPoint <;> simpa [or_comm] using isPoint

theorem encloses_sector (radius : 0 ≤ arc.radius) (nonneg : 0 ≤ width)
    (unclosed : arc.isFullCircle = false) :
    Encloses (bandExtent arc width) (bandPrimitives arc width) (arc.band width) := by
  intro box held
  rcases innerRadius_bounds radius nonneg with ⟨inner, smaller⟩
  let around : Arc ℝ := { arc with radius := arc.outerRadius width }
  have extremes : ∀ point ∈ around.extremes, box.Holds point :=
    fun point member => held point (List.mem_append_left _ member)
  have corners : ∀ point ∈ bandCorners arc width, box.Holds point := by
    intro point member
    refine held point (List.mem_append_right _ ?_)
    simpa [unclosed] using member
  simp only [bandCorners, List.mem_cons, List.not_mem_nil, or_false, forall_eq_or_imp,
    forall_eq] at corners
  rcases corners with ⟨outerStart, outerFinish, innerFinish, innerStart⟩
  constructor
  · intro primitive member point isPoint
    simp only [bandPrimitives, unclosed, Bool.false_eq_true, if_false, List.mem_append,
      List.mem_cons, List.not_mem_nil, or_false] at member
    rcases member with ((rfl | rfl | rfl) | back) | rfl
    · rcases List.mem_singleton.mp isPoint with rfl
      exact outerStart
    · rcases List.mem_singleton.mp isPoint with rfl
      exact outerFinish
    · rcases List.mem_singleton.mp isPoint with rfl
      exact innerFinish
    · split at back
      · cases back
      · rcases List.mem_singleton.mp back with rfl
        rcases List.mem_singleton.mp isPoint with rfl
        exact innerStart
    · cases isPoint
  · intro contour member point isPoint
    rcases mem_points_of_mem_band unclosed member isPoint with isOuter | isInner
    · rcases Arc.exists_angle_of_mem_points isOuter with ⟨angle, spans, rfl⟩
      exact @Arc.holds_pointAt box around _ _ (inner.trans smaller) le_rfl
        outerStart outerFinish
        extremes spans
    · rcases Arc.exists_angle_of_mem_points isInner with ⟨angle, spans, rfl⟩
      exact @Arc.holds_pointAt box around _ _ inner smaller innerStart
        innerFinish extremes spans

/-- The extremes of the outer edge and the corners are enough for a band. -/
theorem encloses_band (radius : 0 ≤ arc.radius) (nonneg : 0 ≤ width) :
    Encloses (bandExtent arc width) (bandPrimitives arc width) (arc.band width) := by
  cases full : arc.isFullCircle with
  | true => exact encloses_ring radius nonneg full
  | false => exact encloses_sector radius nonneg full

end Bands

/-! ## Edges of regions -/

namespace Edge

def finish : Edge ℝ → Point ℝ
  | .line _ finish => finish
  | .arc _ finish _ => finish

def IsSound : Edge ℝ → Prop
  | .line .. => True
  | .arc start finish curve =>
      curve.Joins start finish ∧ finish.distance curve.center = curve.radius

variable {edge : Edge ℝ} {box : Box ℝ}

theorem finish_mem_extent (edge : Edge ℝ) : edge.finish ∈ edge.extent := by
  cases edge <;> simp [finish, extent]

/-- The box that holds the start and the extent of an edge holds all of its vertices. -/
theorem holds_points (sound : edge.IsSound) (startHeld : box.Holds edge.start)
    (held : ∀ point ∈ edge.extent, box.Holds point) :
    ∀ point ∈ edge.points, box.Holds point := by
  intro point member
  cases edge with
  | line start finish =>
      rcases List.mem_singleton.mp member with rfl
      exact held _ (by simp [extent])
  | arc start finish curve =>
      rcases sound with ⟨joins, onCircle⟩
      have extremes : ∀ point ∈ curve.extremes, box.Holds point :=
        fun point isExtreme => held point (List.mem_cons_of_mem _ isExtreme)
      rcases Arc.exists_angle_of_mem_points (List.mem_of_mem_tail member) with
        ⟨angle, spans, rfl⟩
      rcases joins.atFinish onCircle with full | atFinish
      · exact Arc.holds_polar_of_full joins.radius_nonneg le_rfl full extremes angle
      · have startThere : box.Holds (curve.pointAt curve.start curve.radius) := by
          rw [joins.atStart]
          exact startHeld
        have finishThere : box.Holds (curve.pointAt curve.finish curve.radius) := by
          rw [atFinish]
          exact held _ (by simp [extent])
        exact Arc.holds_pointAt joins.radius_nonneg le_rfl startThere
          finishThere extremes spans

/-- The last vertex of an edge needs its extent only. -/
theorem holds_getLast (sound : edge.IsSound)
    (held : ∀ point ∈ edge.extent, box.Holds point) :
    ∀ point ∈ edge.points.getLast?, box.Holds point := by
  intro point last
  cases edge with
  | line start finish =>
      rcases Option.some.inj last with rfl
      exact held _ (by simp [extent])
  | arc start finish curve =>
      rcases sound with ⟨joins, onCircle⟩
      have isFinish : curve.pointAt curve.finish curve.radius = point := by
        exact Option.some.inj (curve.getLast_tail_points.symm.trans last)
      rw [← isFinish]
      rcases joins.atFinish onCircle with full | atFinish
      · exact Arc.holds_polar_of_full joins.radius_nonneg le_rfl full
          (fun point isExtreme => held point (List.mem_cons_of_mem _ isExtreme)) _
      · rw [atFinish]
        exact held _ (by simp [extent])

theorem points_ne_nil (edge : Edge ℝ) : edge.points ≠ [] := by
  cases edge with
  | line start finish => simp [points]
  | arc start finish curve =>
      exact List.ne_nil_of_length_pos
        (zero_lt_two.trans_le curve.two_le_length_tail_points)

theorem holds_primitives (sound : edge.IsSound)
    (held : ∀ point ∈ edge.extent, box.Holds point) :
    box.HoldsPrimitives edge.primitives := by
  intro primitive member point isPoint
  cases edge with
  | line start finish =>
      rcases List.mem_singleton.mp member with rfl
      exact held point isPoint
  | arc start finish curve =>
      have finishHeld : box.Holds finish := held _ (by simp [extent])
      simp only [primitives] at member
      split at member
      · rename_i full
        simp only [List.mem_cons, List.not_mem_nil, or_false] at member
        rcases member with rfl | rfl
        · rcases List.mem_singleton.mp isPoint with rfl
          exact Arc.holds_polar_of_full sound.1.radius_nonneg le_rfl full
            (fun point isExtreme => held point (List.mem_cons_of_mem _ isExtreme)) _
        · rcases List.mem_singleton.mp isPoint with rfl
          exact finishHeld
      · rcases List.mem_singleton.mp member with rfl
        rcases List.mem_singleton.mp isPoint with rfl
        exact finishHeld

end Edge

namespace Outline

open Classical in
/-- The vertices of the edges that do not begin where the edge before them ended. -/
noncomputable def displacedFrom (last : Point ℝ) : Outline ℝ → List (Point ℝ)
  | [] => []
  | edge :: rest =>
      (if edge.start = last then [] else edge.points) ++ displacedFrom edge.finish rest

noncomputable def displaced : Outline ℝ → List (Point ℝ)
  | [] => []
  | first :: rest => displacedFrom first.start (first :: rest)

theorem mem_points_of_mem_displacedFrom {last point : Point ℝ} {outline : Outline ℝ}
    (member : point ∈ displacedFrom last outline) :
    point ∈ outline.flatMap Edge.points := by
  induction outline generalizing last with
  | nil => cases member
  | cons edge rest induction =>
      rcases List.mem_append.mp member with own | later
      · split at own
        · cases own
        · exact List.mem_append_left _ own
      · exact List.mem_append_right _ (induction later)

/-- Edge by edge: what holds the vertices of an edge that begins where a box can tell
holds all vertices, unless they belong to displaced edges. -/
theorem holds_or_displaced {box other : Box ℝ} {last : Point ℝ} {outline : Outline ℝ}
    (each : ∀ edge ∈ outline, box.Holds edge.start →
      ∀ point ∈ edge.points, other.Holds point)
    (lastHeld : box.Holds last) (finishHeld : ∀ edge ∈ outline, box.Holds edge.finish) :
    ∀ point ∈ outline.flatMap Edge.points,
      other.Holds point ∨ point ∈ displacedFrom last outline := by
  induction outline generalizing last with
  | nil => simp
  | cons edge rest induction =>
      intro point member
      have later := induction (fun next isNext => each next (by simp [isNext]))
        (finishHeld edge (by simp)) (fun next isNext =>
          finishHeld next (by simp [isNext]))
      rw [displacedFrom]
      rcases List.mem_append.mp member with own | isLater
      · by_cases connected : edge.start = last
        · left
          exact each edge (by simp) (connected ▸ lastHeld) point own
        · right
          simp [connected, own]
      · rcases later point isLater with isHeld | isDisplaced
        · exact .inl isHeld
        · exact .inr (List.mem_append_right _ isDisplaced)

theorem openEnded_eq (points : Contour ℝ) :
    openEnded points = points ∨ openEnded points = points.dropLast := by
  unfold openEnded
  split
  · split
    · split
      · exact .inr rfl
      · exact .inl rfl
    · exact .inl rfl
  · exact .inl rfl

theorem exists_edge_of_getLast {point : Point ℝ} {outline : Outline ℝ}
    (last : (outline.flatMap Edge.points).getLast? = some point) :
    ∃ edge ∈ outline, edge.points.getLast? = some point := by
  induction outline with
  | nil => cases last
  | cons edge rest induction =>
      rw [List.flatMap_cons, List.getLast?_append] at last
      cases later : (rest.flatMap Edge.points).getLast? with
      | none =>
          rw [later, Option.none_or] at last
          exact ⟨edge, by simp, last⟩
      | some found =>
          rw [later, Option.some_or] at last
          rcases induction (later.trans last) with ⟨other, isOther, isLast⟩
          exact ⟨other, List.mem_cons_of_mem _ isOther, isLast⟩

section Kept

variable {first : Edge ℝ} {rest : Outline ℝ} {box : Box ℝ}

theorem holds_subpath (sound : ∀ edge ∈ first :: rest, edge.IsSound)
    (startHeld : box.Holds first.start)
    (held : ∀ edge ∈ first :: rest, ∀ point ∈ edge.extent, box.Holds point) :
    box.HoldsPrimitives (subpath (first :: rest)) := by
  intro primitive member point isPoint
  simp only [subpath, opened, List.cons_append, List.mem_cons, List.mem_append,
    List.not_mem_nil, or_false] at member
  rcases member with rfl | own | rfl
  · rcases List.mem_singleton.mp isPoint with rfl
    exact startHeld
  · rcases List.mem_flatMap.mp own with ⟨edge, isEdge, isOwn⟩
    exact edge.holds_primitives (sound edge isEdge) (held edge isEdge)
      primitive isOwn point isPoint
  · cases isPoint

/-- Only the closing vertex of an outline may be missing from its contour. -/
theorem mem_vertices_or_getLast {point : Point ℝ}
    (member : point ∈ (opened (first :: rest)).points) :
    point ∈ vertices (first :: rest) ∨
      ((first :: rest).flatMap Edge.points).getLast? = some point := by
  rw [vertices]
  rcases openEnded_eq (opened (first :: rest)).points with same | shorter
  · rw [same]
    exact .inl member
  · rw [shorter]
    have nonempty : (opened (first :: rest)).points ≠ [] := List.ne_nil_of_mem member
    rw [← List.dropLast_append_getLast nonempty] at member
    rcases List.mem_append.mp member with inside | last
    · exact .inl inside
    · right
      rcases List.mem_singleton.mp last with rfl
      have some : (first :: rest).flatMap Edge.points ≠ [] := by
        simp [first.points_ne_nil]
      rw [List.getLast?_eq_some_getLast some]
      simp only [opened, List.getLast_cons some]

theorem mem_points_of_mem_vertices {point : Point ℝ}
    (member : point ∈ vertices (first :: rest)) :
    point ∈ (opened (first :: rest)).points := by
  rw [vertices] at member
  rcases openEnded_eq (opened (first :: rest)).points with same | shorter
  · rw [same] at member
    exact member
  · rw [shorter] at member
    exact List.mem_of_mem_dropLast member

end Kept

/-- The box of an outline holds its first point and the extents of its edges. -/
theorem holds_opened (first : Edge ℝ) (rest : Outline ℝ) :
    (opened (first :: rest)).box.Holds first.start ∧
      ∀ edge ∈ first :: rest, ∀ point ∈ edge.extent,
        (opened (first :: rest)).box.Holds point := by
  refine ⟨(Box.within_coverAll _ _).holds (Box.holds_cover _ _), ?_⟩
  intro edge isEdge point member
  exact Box.holds_coverAll _ (List.mem_flatMap.mpr ⟨edge, isEdge, member⟩)

/-- A box that holds what a kept outline has covered holds its subpath. It holds
the vertices, too, unless they belong to displaced edges. -/
theorem bounds {outline : Outline ℝ} {box : Box ℝ} (kept : outline.IsKept = true)
    (sound : ∀ edge ∈ outline, edge.IsSound)
    (within : ∀ point, outline.opened.box.Holds point → box.Holds point) :
    box.HoldsPrimitives outline.subpath ∧
      (∀ point ∈ outline.vertices, box.Holds point ∨ point ∈ outline.displaced) ∧
      ∀ point ∈ outline.displaced, box.Holds point ∨ point ∈ outline.vertices := by
  cases outline with
  | nil => simp [IsKept, vertices, openEnded, OpenContour.empty] at kept
  | cons first rest =>
      rcases holds_opened first rest with ⟨startCovered, covered⟩
      have edgeHeld : ∀ edge ∈ first :: rest, ∀ point ∈ edge.extent, box.Holds point :=
        fun edge isEdge point member => within point (covered edge isEdge point member)
      have startHeld : box.Holds first.start := within _ startCovered
      refine ⟨holds_subpath sound startHeld edgeHeld, ?_, ?_⟩
      · intro point member
        rcases List.mem_cons.mp (mem_points_of_mem_vertices member) with rfl | later
        · exact .inl startHeld
        · exact holds_or_displaced
            (fun edge isEdge begins => edge.holds_points (sound edge isEdge) begins
              (edgeHeld edge isEdge))
            startHeld (fun edge isEdge =>
              edgeHeld edge isEdge _ edge.finish_mem_extent) point later
      · intro point member
        have drawn : point ∈ (opened (first :: rest)).points :=
          List.mem_cons_of_mem _ (mem_points_of_mem_displacedFrom member)
        rcases mem_vertices_or_getLast drawn with inside | last
        · exact .inr inside
        · rcases exists_edge_of_getLast last with ⟨edge, isEdge, isLast⟩
          exact .inl
            (edge.holds_getLast (sound edge isEdge) (edgeHeld edge isEdge) _ isLast)

end Outline

/-! ## Sketches -/

namespace Sketch

def IsSound (sketch : Sketch ℝ) : Prop :=
  ∀ outline ∈ sketch.closed ++ [sketch.current], ∀ edge ∈ outline, edge.IsSound

noncomputable def displaced (sketch : Sketch ℝ) : List (Point ℝ) :=
  sketch.kept.flatMap Outline.displaced

theorem holds_joinBoxes {outlines : List (Outline ℝ)} {outline : Outline ℝ}
    {point : Point ℝ}
    (member : outline ∈ outlines) (holds : outline.opened.box.Holds point) :
    (joinBoxes outlines).Holds point := by
  have stays : ∀ (later : List (Outline ℝ)) (box : Box ℝ), box.Within
      (later.foldl (fun box outline => box.join outline.opened.box) box) := by
    intro later
    induction later with
    | nil => exact fun box => box.within_refl
    | cons first rest induction =>
        exact fun box => (box.within_join _).trans (induction _)
  unfold joinBoxes
  generalize Box.empty = begun
  induction outlines generalizing begun with
  | nil => cases member
  | cons first rest induction =>
      rcases List.mem_cons.mp member with rfl | later
      · exact (stays rest _).holds (holds.join begun)
      · exact induction later _

theorem kept_sound {sketch : Sketch ℝ} (sound : sketch.IsSound) {outline : Outline ℝ}
    (member : outline ∈ sketch.kept) :
    outline.IsKept = true ∧ ∀ edge ∈ outline, edge.IsSound := by
  rcases List.mem_filter.mp member with ⟨isOutline, kept⟩
  exact ⟨kept, sound outline isOutline⟩

end Sketch

/-! ## Operations -/

def Operation.IsSound : Operation ℝ → Prop
  | .strokeArc _ arc width => degenerateLength ≤ arc.radius ∧ 0 ≤ width
  | .drawEdge edge => edge.IsSound
  | _ => True

theorem Sketch.IsSound.draw {sketch : Sketch ℝ} (sound : sketch.IsSound)
    {operation : Operation ℝ} (also : operation.IsSound) :
    (sketch.draw operation).IsSound := by
  have nothing : (Sketch.empty : Sketch ℝ).IsSound := by
    intro outline member edge isEdge
    rcases List.mem_singleton.mp member with rfl
    cases isEdge
  cases operation with
  | drawEdge added =>
      intro outline member edge isEdge
      rcases List.mem_append.mp member with closed | current
      · exact sound outline (List.mem_append_left _ closed) edge isEdge
      · rcases List.mem_singleton.mp current with rfl
        rcases List.mem_append.mp isEdge with earlier | isAdded
        · exact sound sketch.current (by simp) edge earlier
        · rcases List.mem_singleton.mp isAdded with rfl
          exact also
  | closeContour =>
      intro outline member edge isEdge
      rcases List.mem_append.mp member with closed | current
      · exact sound outline closed edge isEdge
      · rcases List.mem_singleton.mp current with rfl
        cases isEdge
  | beginRegion => exact nothing
  | endRegion => exact nothing
  | discardRegion => exact nothing
  | _ => exact sound

noncomputable def Sketch.displacedBy (sketch : Sketch ℝ) : Operation ℝ → List (Point ℝ)
  | .endRegion => sketch.displaced
  | _ => []

noncomputable def Sketch.displacedByAll (sketch : Sketch ℝ) :
    List (Operation ℝ) → List (Point ℝ)
  | [] => []
  | operation :: rest =>
      sketch.displacedBy operation ++ (sketch.draw operation).displacedByAll rest

end Canvas

/-- The box holds all primitives, and all vertices but for displaced ones. It holds
nothing if nothing is plotted. -/
structure Plot.Bounded (plot : Plot ℝ) (displaced : List (Point ℝ)) : Prop where
  primitives : plot.box.HoldsPrimitives plot.primitives
  vertices : ∀ shape ∈ plot.shapes, ∀ contour ∈ shape, ∀ point ∈ contour,
    plot.box.Holds point ∨ point ∈ displaced
  displaced : ∀ point ∈ displaced,
    plot.box.Holds point ∨ ∃ shape ∈ plot.shapes, ∃ contour ∈ shape, point ∈ contour
  empty : plot.primitives = [] → plot.box = .empty

namespace Plot.Bounded

variable {plot other : Plot ℝ} {displaced added : List (Point ℝ)}

theorem of_sameObjects (bounded : plot.Bounded displaced)
    (same : plot.SameObjects other) :
    other.Bounded displaced := by
  rcases same with ⟨primitives, shapes, box⟩
  constructor
  · rw [primitives, box]
    exact bounded.primitives
  · rw [shapes, box]
    exact bounded.vertices
  · rw [shapes, box]
    exact bounded.displaced
  · rw [primitives, box]
    exact bounded.empty

/-- An object is added, together with the displaced vertices that it has. -/
theorem add (bounded : plot.Bounded displaced) {primitives : List (Path.Primitive ℝ)}
    {shape : Shape ℝ} {box : Box ℝ} (some : primitives ≠ []) (grows : plot.box.Within box)
    (primitivesHeld : box.HoldsPrimitives primitives)
    (shapeHeld : ∀ contour ∈ shape, ∀ point ∈ contour, box.Holds point ∨ point ∈ added)
    (addedDrawn : ∀ point ∈ added, box.Holds point ∨ ∃ contour ∈ shape, point ∈ contour)
    (isPrimitives : other.primitives = plot.primitives ++ primitives)
    (isShapes : other.shapes = plot.shapes ++ [shape]) (isBox : other.box = box) :
    other.Bounded (displaced ++ added) := by
  constructor
  · rw [isPrimitives, isBox]
    intro primitive member point isPoint
    rcases List.mem_append.mp member with before | isAdded
    · exact grows.holds (bounded.primitives primitive before point isPoint)
    · exact primitivesHeld primitive isAdded point isPoint
  · rw [isShapes, isBox]
    intro own member contour isContour point isPoint
    rcases List.mem_append.mp member with before | isAdded
    · rcases bounded.vertices own before contour isContour point isPoint with
          held | isDisplaced
      · exact .inl (grows.holds held)
      · exact .inr (List.mem_append_left _ isDisplaced)
    · rcases List.mem_singleton.mp isAdded with rfl
      rcases shapeHeld contour isContour point isPoint with held | isDisplaced
      · exact .inl held
      · exact .inr (List.mem_append_right _ isDisplaced)
  · rw [isShapes, isBox]
    intro point member
    rcases List.mem_append.mp member with before | isAdded
    · rcases bounded.displaced point before with held | ⟨own, isOwn, drawn⟩
      · exact .inl (grows.holds held)
      · exact .inr ⟨own, List.mem_append_left _ isOwn, drawn⟩
    · rcases addedDrawn point isAdded with held | drawn
      · exact .inl held
      · exact .inr ⟨shape, by simp, drawn⟩
  · intro nothing
    rw [isPrimitives] at nothing
    exact absurd (List.append_eq_nil_iff.mp nothing).2 some

theorem addObject {canvas : Canvas ℝ} (bounded : canvas.plot.Bounded displaced)
    {primitives : List (Path.Primitive ℝ)} {shape : Shape ℝ} {extent : List (Point ℝ)}
    (some : primitives ≠ []) (encloses : Encloses extent primitives shape) :
    (canvas.addObject primitives shape extent).plot.Bounded displaced := by
  have held := encloses (canvas.plot.box.coverAll extent)
    fun point member => Box.holds_coverAll _ member
  have whole :
      (canvas.addObject primitives shape extent).plot.Bounded (displaced ++ []) :=
    bounded.add some (Box.within_coverAll _ extent) held.1
      (fun contour member point isPoint =>
        .inl (held.2 contour member point isPoint)) (by simp)
      rfl rfl rfl
  rwa [List.append_nil] at whole

theorem holdsShape_iff (bounded : plot.Bounded displaced) :
    (∀ shape ∈ plot.shapes, plot.box.HoldsShape shape) ↔
      ∀ point ∈ displaced, plot.box.Holds point := by
  constructor
  · intro held point member
    rcases bounded.displaced point member with
        already | ⟨shape, isShape, contour, isContour, drawn⟩
    · exact already
    · exact held shape isShape contour isContour point drawn
  · intro held shape isShape contour isContour point drawn
    rcases bounded.vertices shape isShape contour isContour point drawn with
        already | member
    · exact already
    · exact held point member

/-- An empty box means that nothing is plotted, since every closed subpath has an
extent. -/
theorem primitives_eq_nil (bounded : plot.Bounded displaced)
    (closed : Path.ClosedRow plot.primitives) (isEmpty : plot.box.isEmpty = true) :
    plot.primitives = [] := by
  have impossible : ∀ primitive ∈ plot.primitives, ∀ point, point ∉ primitive.extent := by
    intro primitive member point isPoint
    rw [(bounded.primitives primitive member point isPoint).nonempty] at isEmpty
    cases isEmpty
  cases primitives : plot.primitives with
  | nil => rfl
  | cons first rest =>
      have none := impossible first (by simp [primitives])
      rw [primitives] at closed
      cases closed with
      | @polygon contour _ enough later =>
          cases contour with
          | nil => simp at enough
          | cons vertex others =>
              exact (none vertex (by simp [Path.Primitive.extent])).elim
      | circle later => exact (none _ (List.mem_cons_self ..)).elim
      | outline start some areEdges later => exact (none _ (List.mem_cons_self ..)).elim

end Plot.Bounded

namespace Canvas

variable {canvas : Canvas ℝ} {displaced : List (Point ℝ)}

theorem bounded_strokeLine (bounded : canvas.plot.Bounded displaced)
    (start finish : Point ℝ)
    (width : ℝ) : (canvas.strokeLine start finish width).plot.Bounded displaced := by
  unfold strokeLine
  split
  · exact bounded
  · have continued :=
        bounded.of_sameObjects (canvas.sameObjects_extendChain start [finish])
    exact continued.addObject (by simp) (encloses_polygon _)

/-- A band has a primitive, since its outer edge has an extent. -/
theorem bandPrimitives_ne_nil {arc : Arc ℝ} {width : ℝ}
    (extent : degenerateLength ≤ arc.radius)
    (nonneg : 0 ≤ width) : bandPrimitives arc width ≠ [] := by
  have outer : ¬arc.outerRadius width < degenerateLength := by
    rw [Arc.outerRadius, Exact.two_eq, not_lt]
    linarith
  simp only [bandPrimitives]
  split
  · simp [circleSubpath, outer]
  · simp

theorem bounded_strokeArc (bounded : canvas.plot.Bounded displaced) (start : Point ℝ)
    {arc : Arc ℝ} {width : ℝ} (extent : degenerateLength ≤ arc.radius)
    (nonneg : 0 ≤ width) :
    (canvas.strokeArc start arc width).plot.Bounded displaced := by
  have continued :=
      bounded.of_sameObjects (canvas.sameObjects_extendChain start arc.points.tail)
  have radius := Arc.degenerateLength_pos.le.trans extent
  exact continued.addObject (bandPrimitives_ne_nil extent nonneg)
    (encloses_band radius nonneg)

theorem bounded_stampOne (bounded : canvas.plot.Bounded displaced)
    (primitive : Path.Primitive ℝ) :
    (canvas.stampOne primitive).plot.Bounded displaced := by
  unfold stampOne
  split
  · split
    · exact bounded
    · rename_i positive
      rw [Exact.zero_eq, not_le] at positive
      exact bounded.addObject (by simp) (encloses_circle positive.le)
  · split
    · exact bounded
    · exact bounded.addObject (by simp) (encloses_polygon _)
  · exact bounded

theorem bounded_stamp (bounded : canvas.plot.Bounded displaced)
    (primitives : List (Path.Primitive ℝ)) :
    (canvas.stamp primitives).plot.Bounded displaced := by
  have begun := bounded.of_sameObjects canvas.sameObjects_breakChain
  unfold stamp
  generalize canvas.breakChain = current at begun
  induction primitives generalizing current with
  | nil => exact begun
  | cons first rest induction => exact induction _ (bounded_stampOne begun first)

theorem bounded_endRegion {sketch : Sketch ℝ}
    (holds : canvas.collected = sketch.collected)
    (sound : sketch.IsSound) (bounded : canvas.plot.Bounded displaced) :
    canvas.endRegion.plot.Bounded (displaced ++ sketch.displaced) := by
  have ended := (objects_endRegion holds).2
  split at ended
  · rename_i nothing
    have none : sketch.kept = [] := by
      simpa [Sketch.shape] using nothing
    rw [Sketch.displaced, none, List.flatMap_nil, List.append_nil]
    exact bounded.of_sameObjects ended
  · rename_i some
    have nonempty : sketch.kept ≠ [] := by
      simpa [Sketch.shape] using some
    have each : ∀ outline ∈ sketch.kept,
        (canvas.plot.box.join sketch.box).HoldsPrimitives outline.subpath ∧
          (∀ point ∈ outline.vertices,
            (canvas.plot.box.join sketch.box).Holds point ∨ point ∈ outline.displaced) ∧
          ∀ point ∈ outline.displaced,
            (canvas.plot.box.join sketch.box).Holds point ∨ point ∈ outline.vertices := by
      intro outline member
      rcases Sketch.kept_sound sound member with ⟨kept, edges⟩
      exact Outline.bounds kept edges fun point isHeld =>
        (Sketch.holds_joinBoxes member isHeld).join _
    refine bounded.add ?_ (Box.within_join _ _) ?_ ?_ ?_ ended.1 ended.2.1 ended.2.2
    · cases kept : sketch.kept with
      | nil => exact absurd kept nonempty
      | cons first rest => simp [Sketch.path, kept, Outline.subpath]
    · intro primitive member
      rcases List.mem_flatMap.mp member with ⟨outline, isOutline, own⟩
      exact (each outline isOutline).1 primitive own
    · intro contour member point isPoint
      rcases List.mem_map.mp member with ⟨outline, isOutline, rfl⟩
      rcases (each outline isOutline).2.1 point isPoint with held | isDisplaced
      · exact .inl held
      · exact .inr (List.mem_flatMap.mpr ⟨outline, isOutline, isDisplaced⟩)
    · intro point member
      rcases List.mem_flatMap.mp member with ⟨outline, isOutline, isDisplaced⟩
      rcases (each outline isOutline).2.2 point isDisplaced with held | drawn
      · exact .inl held
      · exact .inr ⟨_, List.mem_map_of_mem isOutline, drawn⟩

theorem bounded_carryOut {sketch : Sketch ℝ} (holds : canvas.collected = sketch.collected)
    (sound : sketch.IsSound) (bounded : canvas.plot.Bounded displaced)
    {operation : Operation ℝ} (also : operation.IsSound) :
    (canvas.carryOut operation).plot.Bounded
      (displaced ++ sketch.displacedBy operation) := by
  have quiet : ¬operation.AddsObjects →
      (canvas.carryOut operation).plot.Bounded displaced := fun quiet =>
    bounded.of_sameObjects (canvas.sameObjects_carryOut quiet)
  have connected : sketch.displacedBy operation = [] →
      (canvas.carryOut operation).plot.Bounded displaced →
        (canvas.carryOut operation).plot.Bounded
          (displaced ++ sketch.displacedBy operation) := by
    intro none result
    rw [none, List.append_nil]
    exact result
  cases operation with
  | strokeLine start finish width =>
      exact connected rfl (bounded_strokeLine bounded _ _ _)
  | strokeArc start arc width =>
      exact connected rfl (bounded_strokeArc bounded start also.1 also.2)
  | stamp primitives => exact connected rfl (bounded_stamp bounded primitives)
  | endRegion => exact bounded_endRegion holds sound bounded
  | _ => exact connected rfl (quiet id)

theorem bounded_foldl {sketch : Sketch ℝ} (holds : canvas.collected = sketch.collected)
    (sound : sketch.IsSound) (bounded : canvas.plot.Bounded displaced)
    {operations : List (Operation ℝ)}
    (all : ∀ operation ∈ operations, operation.IsSound) :
    (operations.foldl carryOut canvas).plot.Bounded
      (displaced ++ sketch.displacedByAll operations) := by
  induction operations generalizing canvas sketch displaced with
  | nil =>
      rw [Sketch.displacedByAll, List.append_nil]
      exact bounded
  | cons operation rest induction =>
      have also := all operation (by simp)
      have later := induction (collected_carryOut holds operation) (sound.draw also)
        (bounded_carryOut holds sound bounded also) fun other member =>
          all other (by simp [member])
      rwa [List.append_assoc] at later

end Canvas

/-! ## Runs -/

/-- What is promised of an operation: a stroke along an arc does not have a negative
width, and an edge along an arc ends as far from the centre as it begins. -/
def Canvas.Operation.IsFair : Canvas.Operation ℝ → Prop
  | .strokeArc _ _ width => 0 ≤ width
  | .drawEdge (.arc _ finish curve) => finish.distance curve.center = curve.radius
  | _ => True

namespace Machine

open Canvas (Operation Sketch Edge Outline)

theorem sound_of_issues {machine : Machine ℝ} {command : Command ℝ}
    {operation : Operation ℝ}
    (issues : machine.Issues command operation) (fair : operation.IsFair) :
    operation.IsSound := by
  cases issues with
  | strokeArc closed dark taken resolved =>
      exact ⟨(Arc.joins_of_arc resolved).extent, fair⟩
  | arc opened taken resolved => exact ⟨Arc.joins_of_arc resolved, fair⟩
  | _ => trivial

theorem sound_of_mem_trace {machine : Machine ℝ} {commands : List (Command ℝ)}
    (fair : ∀ operation ∈ machine.trace commands, operation.IsFair) :
    ∀ operation ∈ machine.trace commands, operation.IsSound := by
  intro operation member
  rcases exists_issues_of_mem_trace member with ⟨current, command, issues⟩
  exact sound_of_issues issues (fair operation member)

noncomputable def displaced (commands : List (Command ℝ)) : List (Point ℝ) :=
  Sketch.empty.displacedByAll (start.trace commands)

theorem bounded_plot {commands : List (Command ℝ)}
    (fair : ∀ operation ∈ start.trace commands, operation.IsFair) :
    (plot commands).value.Bounded (displaced commands) := by
  have collected : (start : Machine ℝ).canvas.collected = Sketch.empty.collected := rfl
  have sound : (Sketch.empty : Sketch ℝ).IsSound := by
    intro outline member edge isEdge
    rcases List.mem_singleton.mp member with rfl
    cases isEdge
  have blank : (start : Machine ℝ).canvas.plot.Bounded [] :=
    ⟨by simp [start, Canvas.empty, Plot.empty, Box.HoldsPrimitives],
      by simp [start, Canvas.empty, Plot.empty], by simp, fun _ => rfl⟩
  have run := Canvas.bounded_foldl collected sound blank (sound_of_mem_trace fair)
  rw [← canvas_run] at run
  exact run.of_sameObjects (start.run commands).value.sameObjects_finish

end Machine

end Photoplot
