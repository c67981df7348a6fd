import Photoplot.Proofs.Plot.Bounds

/-! # The two forms of a region

A region goes into the plot as a path and as contours of vertices. An edge of the path
ends at the point that its draw was to reach; the vertices of an arc end on its circle.
Both forms describe the same outline up to the gaps between these ends. -/

namespace Photoplot

/-! ## Boxes with a margin -/

theorem Span.holds_padded {span : Span ℝ} {held value margin : ℝ}
    (holds : span.Holds held)
    (near : |value - held| ≤ margin) : (span.padded margin).Holds value := by
  rcases abs_le.mp near with ⟨least, most⟩
  cases span with
  | none => exact holds.elim
  | between low high =>
      rcases holds with ⟨above, below⟩
      exact ⟨by linarith, by linarith⟩

theorem Point.abs_sub_x_le (point other : Point ℝ) :
    |point.x - other.x| ≤ point.distance other := by
  rw [distance_eq_norm]
  exact Complex.abs_re_le_norm ⟨point.x - other.x, point.y - other.y⟩

theorem Point.abs_sub_y_le (point other : Point ℝ) :
    |point.y - other.y| ≤ point.distance other := by
  rw [distance_eq_norm]
  exact Complex.abs_im_le_norm ⟨point.x - other.x, point.y - other.y⟩

theorem Box.holds_padded {box : Box ℝ} {held point : Point ℝ} {margin : ℝ}
    (holds : box.Holds held) (near : point.distance held ≤ margin) :
    (box.padded margin).Holds point := by
  have across := (point.abs_sub_x_le held).trans near
  have up := (point.abs_sub_y_le held).trans near
  have some : box.isEmpty = false := by
    simp [isEmpty, holds.1.nonempty, holds.2.nonempty]
  rw [padded, some]
  exact ⟨Span.holds_padded holds.1 across, Span.holds_padded holds.2 up⟩

def Path.Primitive.edgeEnd? {K : Type} : Path.Primitive K → Option (Point K)
  | .lineTo point => some point
  | .arcTo _ _ _ point => some point
  | _ => none

namespace Canvas

/-! ## Edges -/

namespace Edge

def IsResolved : Edge ℝ → Prop
  | .line .. => True
  | .arc start finish curve => ∃ quadrants clockwise offset,
      Arc.resolve? quadrants clockwise start finish offset = some curve

noncomputable def gap : Edge ℝ → ℝ
  | .line .. => 0
  | .arc _ finish curve => finish.distance (curve.pointAt curve.finish curve.radius)

def Meets : Edge ℝ → Prop
  | .line .. => True
  | .arc _ finish curve => curve.Meets finish

variable {edge : Edge ℝ} {box : Box ℝ} {margin : ℝ}

theorem gap_lt_iff (resolved : edge.IsResolved) :
    edge.gap < degenerateLength ↔ edge.Meets := by
  cases edge with
  | line => exact iff_of_true Arc.degenerateLength_pos trivial
  | arc start finish curve =>
      rcases resolved with ⟨quadrants, clockwise, offset, resolved⟩
      rw [gap, Point.distance_comm]
      exact Arc.together_finish_iff resolved

theorem gap_nonneg (edge : Edge ℝ) : 0 ≤ edge.gap := by
  cases edge with
  | line => exact le_rfl
  | arc start finish curve => exact Real.sqrt_nonneg _

/-- The last vertex of an edge, which is as far from the end of the edge as the gap
says. -/
theorem exists_last (edge : Edge ℝ) :
    ∃ last ∈ edge.points, edge.finish.distance last = edge.gap := by
  cases edge with
  | line start finish => exact ⟨finish, by simp [points], Point.distance_self finish⟩
  | arc start finish curve =>
      exact ⟨_, List.mem_of_getLast? curve.getLast_tail_points, rfl⟩

/-- A full circle is flattened into chords of the largest angle. -/
theorem chordCount_of_full {curve : Arc ℝ} (full : curve.isFullCircle = true)
    (once : |curve.sweep| ≤ PlaneScalar.turn) : Arc.chordCount curve.sweep = 180 := by
  have positive := Real.pi_gt_three
  have chord : (Arc.chordAngle : ℝ) = Real.pi / 90 := by
    change Real.pi / 90.0 = _
    norm_num
  have least : 2 * Real.pi - 1e-9 ≤ |curve.sweep| := by
    rw [← Arc.turn_eq]
    exact of_decide_eq_true full
  rw [Arc.turn_eq] at once
  have count : ⌈|curve.sweep| / (Real.pi / 90)⌉₊ = 180 := by
    rw [Nat.ceil_eq_iff (by norm_num), lt_div_iff₀ (by positivity),
      div_le_iff₀ (by positivity)]
    norm_num at least ⊢
    exact ⟨by linarith, by linarith⟩
  change max ⌈|curve.sweep| / Arc.chordAngle⌉₊ 2 = 180
  rw [chord, count]
  rfl

/-- So it has a vertex opposite to its start. -/
theorem opposite_mem_points {start finish : Point ℝ} {curve : Arc ℝ}
    (resolved : (Edge.arc start finish curve).IsResolved)
    (full : curve.isFullCircle = true) :
    curve.pointAt (curve.start + curve.sweep / 2.0) curve.radius ∈
      (Edge.arc start finish curve).points := by
  rcases resolved with ⟨quadrants, clockwise, offset, resolved⟩
  have count := chordCount_of_full full (Arc.abs_sweep_le resolved)
  -- The middle of the circle is where the ninetieth of its chords ends.
  have half : curve.sweep / 2.0 = curve.sweep * Scalar.ofNat 90 / Scalar.ofNat 180 := by
    rw [Arc.ofNat_eq_cast, Arc.ofNat_eq_cast]
    norm_num
    ring
  rw [points, Arc.points, count, List.range_succ_eq_map, List.map_cons, List.tail_cons,
    List.map_map, half]
  exact List.mem_map_of_mem (List.mem_range.mpr (by norm_num : 89 < 180))

/-- A line or an arc of the path of an edge ends where the edge does, or at a vertex. -/
theorem edgeEnd_cases (resolved : edge.IsResolved) {primitive : Path.Primitive ℝ}
    (member : primitive ∈ edge.primitives) {point : Point ℝ}
    (ends : primitive.edgeEnd? = some point) :
    point = edge.finish ∨ point ∈ edge.points := by
  cases edge with
  | line start finish =>
      rcases List.mem_singleton.mp member with rfl
      exact .inl (Option.some.inj ends).symm
  | arc start finish curve =>
      simp only [primitives] at member
      split at member
      · rename_i full
        simp only [List.mem_cons, List.not_mem_nil, or_false] at member
        rcases member with rfl | rfl
        · rcases Option.some.inj ends with rfl
          exact .inr (opposite_mem_points resolved full)
        · exact .inl (Option.some.inj ends).symm
      · rcases List.mem_singleton.mp member with rfl
        exact .inl (Option.some.inj ends).symm

/-- The box that holds the start and the extent of an edge holds its vertices if it is
grown by the gap. -/
theorem holds_points_padded (resolved : edge.IsResolved)
    (startHeld : box.Holds edge.start)
    (held : ∀ point ∈ edge.extent, box.Holds point) (wide : edge.gap ≤ margin) :
    ∀ point ∈ edge.points, (box.padded margin).Holds point := by
  have positive : 0 ≤ margin := edge.gap_nonneg.trans wide
  have grown : ∀ {point : Point ℝ}, box.Holds point → (box.padded margin).Holds point :=
    fun {point} holds => Box.holds_padded holds (by rwa [Point.distance_self])
  intro point member
  cases edge with
  | line start finish =>
      rcases List.mem_singleton.mp member with rfl
      exact grown (held _ (by simp [extent]))
  | arc start finish curve =>
      rcases resolved with ⟨quadrants, clockwise, offset, resolved⟩
      have joins := Arc.joins_of_resolve resolved
      have startThere :
          (box.padded margin).Holds (curve.pointAt curve.start curve.radius) := by
        rw [joins.atStart]
        exact grown startHeld
      have finishThere :
          (box.padded margin).Holds (curve.pointAt curve.finish curve.radius) := by
        refine Box.holds_padded (held finish (by simp [extent])) ?_
        rw [Point.distance_comm]
        exact wide
      have extremes : ∀ point ∈ curve.extremes, (box.padded margin).Holds point :=
        fun point isExtreme => grown (held point (List.mem_cons_of_mem _ isExtreme))
      rcases Arc.exists_angle_of_mem_points (List.mem_of_mem_tail member) with
          ⟨angle, spans, rfl⟩
      exact Arc.holds_pointAt joins.radius_nonneg le_rfl startThere
        finishThere extremes spans

end Edge

/-! ## Outlines -/

namespace Outline

variable {first : Edge ℝ} {rest : Outline ℝ} {margin : ℝ}

/-- A point that is left out of the vertices is at the same place as the first one. -/
theorem exists_vertex_together {point : Point ℝ}
    (member : point ∈ (opened (first :: rest)).points) :
    ∃ vertex ∈ vertices (first :: rest), Together point vertex := by
  have itself : Together point point := by
    rw [Together, Point.distance_self]
    exact Arc.degenerateLength_pos
  have some : (first :: rest).flatMap Edge.points ≠ [] := by simp [first.points_ne_nil]
  have begins : (opened (first :: rest)).points =
      first.start :: (first :: rest).flatMap Edge.points := rfl
  rw [vertices, begins]
  rw [begins] at member
  generalize (first :: rest).flatMap Edge.points = later at some member
  cases later with
  | nil => exact absurd rfl some
  | cons second others =>
      have nonempty : first.start :: second :: others ≠ [] := List.cons_ne_nil _ _
      have isLast := List.getLast?_eq_some_getLast nonempty
      simp only [openEnded, isLast]
      split
      · rename_i closes
        rw [← List.dropLast_append_getLast nonempty] at member
        rcases List.mem_append.mp member with inside | last
        · exact ⟨point, inside, itself⟩
        · rcases List.mem_singleton.mp last with rfl
          refine ⟨first.start, List.mem_cons_self, ?_⟩
          rw [Together, Point.distance_comm]
          exact closes
      · exact ⟨point, member, itself⟩

/-- Every line and arc of the path ends near a vertex. -/
theorem exists_vertex_near (resolved : ∀ edge ∈ first :: rest, edge.IsResolved)
    (wide : ∀ edge ∈ first :: rest, edge.gap ≤ margin) {primitive : Path.Primitive ℝ}
    (member : primitive ∈ subpath (first :: rest)) {point : Point ℝ}
    (ends : primitive.edgeEnd? = some point) :
    ∃ vertex ∈ vertices (first :: rest), point.distance vertex <
      margin + degenerateLength := by
  have positive : 0 ≤ margin := first.gap_nonneg.trans (wide first List.mem_cons_self)
  have drawn : ∃ edge ∈ first :: rest, primitive ∈ edge.primitives := by
    simp only [subpath, opened, List.cons_append, List.mem_cons, List.mem_append,
      List.not_mem_nil, or_false] at member
    rcases member with rfl | own | rfl
    · cases ends
    · exact List.mem_flatMap.mp own
    · cases ends
  rcases drawn with ⟨edge, isEdge, own⟩
  have flattened : ∀ vertex ∈ edge.points, vertex ∈ (opened (first :: rest)).points :=
    fun vertex isVertex =>
      List.mem_cons_of_mem _ (List.mem_flatMap.mpr ⟨edge, isEdge, isVertex⟩)
  rcases Edge.edgeEnd_cases (resolved edge isEdge) own ends with rfl | isPoint
  · rcases edge.exists_last with ⟨last, isLast, gap⟩
    rcases exists_vertex_together (flattened last isLast) with
        ⟨vertex, isVertex, together⟩
    refine ⟨vertex, isVertex, (edge.finish.distance_triangle last vertex).trans_lt ?_⟩
    rw [gap]
    exact add_lt_add_of_le_of_lt (wide edge isEdge) together
  · rcases exists_vertex_together (flattened point isPoint) with
        ⟨vertex, isVertex, together⟩
    exact ⟨vertex, isVertex, together.trans_le (le_add_of_nonneg_left positive)⟩

/-- A box that holds all that the box of the outline does, grown by the gaps, holds the
vertices of all edges that are not displaced. -/
theorem holds_vertices_padded {box : Box ℝ}
    (resolved : ∀ edge ∈ first :: rest, edge.IsResolved)
    (wide : ∀ edge ∈ first :: rest, edge.gap ≤ margin)
    (within : ∀ point, (opened (first :: rest)).box.Holds point → box.Holds point) :
    ∀ vertex ∈ vertices (first :: rest),
      (box.padded margin).Holds vertex ∨ vertex ∈ displaced (first :: rest) := by
  have positive : 0 ≤ margin := first.gap_nonneg.trans (wide first List.mem_cons_self)
  rcases holds_opened first rest with ⟨startCovered, covered⟩
  have held : ∀ edge ∈ first :: rest, ∀ point ∈ edge.extent, box.Holds point :=
    fun edge isEdge point member => within point (covered edge isEdge point member)
  intro vertex member
  rcases List.mem_cons.mp (mem_points_of_mem_vertices member) with rfl | later
  · exact .inl (Box.holds_padded (within _ startCovered) (by rwa [Point.distance_self]))
  · refine holds_or_displaced ?_ (within _ startCovered)
      (fun edge isEdge => held edge isEdge _ edge.finish_mem_extent) vertex later
    intro edge isEdge startHeld
    exact Edge.holds_points_padded (resolved edge isEdge) startHeld (held edge isEdge)
      (wide edge isEdge)

end Outline

end Canvas

/-! ## Regions of a run -/

namespace Machine

open Canvas (Operation Sketch Edge Outline)

theorem isResolved_of_mem_trace {machine : Machine ℝ} {commands : List (Command ℝ)}
    {edge : Edge ℝ} (member : .drawEdge edge ∈ machine.trace commands) :
    edge.IsResolved := by
  rcases exists_issues_of_mem_trace member with ⟨current, command, issues⟩
  cases issues with
  | line => trivial
  | arc opened taken resolved =>
      rcases Arc.resolved_of_arc resolved with ⟨clockwise, resolved⟩
      exact ⟨_, clockwise, _, resolved⟩

theorem isResolved_of_mem_kept {commands : List (Command ℝ)} {outline : Outline ℝ}
    (member : outline ∈ (sketch commands).kept) : ∀ edge ∈ outline, edge.IsResolved := by
  intro edge isEdge
  rcases Sketch.drawEdge_mem (List.mem_filter.mp member).1 isEdge with
      drawn | ⟨earlier, none, own⟩
  · exact isResolved_of_mem_trace drawn
  · rcases List.mem_singleton.mp none with rfl
    cases own

/-- The end of a region adds its path, its contours and its box to the plot. For each
contour the lines and arcs of the path end near vertices, and the box holds the vertices,
up to the gaps between the points that the arcs were to reach and their circles; only the
vertices of edges that do not begin where the edge before ended may be elsewhere. Nothing
checks that there are no gaps: an edge has none if and only if its end is on its
circle. -/
theorem region_agrees (commands : List (Command ℝ))
    (completes : (start.run commands).value.CompletesRegion .endRegion)
    (kept : (sketch commands).shape ≠ []) :
    let machine := (start.run commands).value
    let region := sketch commands
    let after := (machine.step .endRegion).value.canvas.plot
    (after.primitives = machine.canvas.plot.primitives ++
      region.kept.flatMap Outline.subpath ∧
      after.shapes = machine.canvas.plot.shapes ++ [region.kept.map Outline.vertices] ∧
      after.box = machine.canvas.plot.box.join region.box) ∧
    ∀ outline ∈ region.kept,
      (∀ edge ∈ outline, edge.gap < degenerateLength ↔ edge.Meets) ∧
      ∀ margin, (∀ edge ∈ outline, edge.gap ≤ margin) →
        (∀ primitive ∈ outline.subpath, ∀ point, primitive.edgeEnd? = some point →
          ∃ vertex ∈ outline.vertices,
            point.distance vertex < margin + degenerateLength) ∧
        ∀ vertex ∈ outline.vertices,
          (region.box.padded margin).Holds vertex ∨ vertex ∈ outline.displaced := by
  intro machine region after
  constructor
  · have added := (Canvas.objects_endRegion (collected_run commands)).2
    have notEmpty : (sketch commands).shape.isEmpty = false := by simpa using kept
    rw [notEmpty] at added
    have ends : machine.operations .endRegion = [.endRegion] :=
        operations_endRegion completes
    have result : after = machine.canvas.endRegion.plot := by
      simp only [after, canvas_step, ends]
      rfl
    rw [result]
    exact added
  · intro outline member
    have resolved := isResolved_of_mem_kept member
    refine ⟨fun edge isEdge => Edge.gap_lt_iff (resolved edge isEdge),
      fun margin wide => ?_⟩
    cases outline with
    | nil =>
        have kept := (List.mem_filter.mp member).2
        simp [Outline.IsKept, Outline.vertices, Canvas.openEnded,
          OpenContour.empty] at kept
    | cons first rest =>
        refine ⟨fun primitive isPrimitive point ends =>
          Outline.exists_vertex_near resolved wide isPrimitive ends, ?_⟩
        exact Outline.holds_vertices_padded resolved wide
          fun point holds => Sketch.holds_joinBoxes member holds

noncomputable def arcRegion (corner finish offset : ℝ) : List (Command ℝ) :=
  [.beginRegion,
    .operation ⟨some (.decimal corner), none, none, none⟩ (some .draw),
    .counterclockwise,
    .operation ⟨some (.decimal finish), none, some (.decimal offset), none⟩ none]

theorem completes_arcRegion (corner finish offset : ℝ) :
    (start.run (arcRegion corner finish offset)).value.CompletesRegion .endRegion := by
  have modes := modes_run start (arcRegion corner finish offset)
  refine ⟨⟨?_, ?_, ?_⟩, rfl⟩
  all_goals
    rw [modes]
    rfl

theorem kept_arcRegion {corner finish offset : ℝ} {curve : Arc ℝ}
    (resolved : Arc.resolve? .multi false ⟨corner, 0⟩ ⟨finish, 0⟩
      ⟨offset, 0⟩ = some curve) :
    (sketch (arcRegion corner finish offset)).kept =
      [[.line ⟨0, 0⟩ ⟨corner, 0⟩, .arc ⟨corner, 0⟩ ⟨finish, 0⟩ curve]] := by
  have drawn : start.trace (arcRegion corner finish offset) =
      [.beginRegion, .drawEdge (.line ⟨0, 0⟩ ⟨corner, 0⟩),
        .drawEdge (.arc ⟨corner, 0⟩ ⟨finish, 0⟩ curve)] := by
    simp [trace, arcRegion, operations, start, Modes.start, step, execute, beginRegion,
      operate, moved, drawOperations, arc?, Modes.advance, Modes.target, Point.origin,
      Exact.zero_eq, draw, Modes.offsets, resolved]
  have begun : sketch (arcRegion corner finish offset) =
      ⟨[], [.line ⟨0, 0⟩ ⟨corner, 0⟩, .arc ⟨corner, 0⟩ ⟨finish, 0⟩ curve]⟩ := by
    rw [sketch, drawn]
    rfl
  have enough : Outline.IsKept [.line ⟨0, 0⟩ ⟨corner, 0⟩,
      .arc ⟨corner, 0⟩ ⟨finish, 0⟩ curve] =
      true := by
    have chords := curve.two_le_length_tail_points
    refine decide_eq_true ?_
    rw [Outline.vertices]
    rcases Outline.openEnded_eq (Outline.opened [.line ⟨0, 0⟩ ⟨corner, 0⟩,
      .arc ⟨corner, 0⟩ ⟨finish, 0⟩ curve]).points with same | shorter
    · rw [same]
      simp only [Outline.opened, List.flatMap_cons, List.flatMap_nil, Edge.points,
        List.length_cons, List.length_append, List.length_nil]
      omega
    · rw [shorter, List.length_dropLast]
      simp only [Outline.opened, List.flatMap_cons, List.flatMap_nil, Edge.points,
        List.length_cons, List.length_append, List.length_nil]
      omega
  rw [begun]
  simp [Sketch.kept, enough]

/-- A half disc, whose arc leads to the other end of its diameter. -/
theorem region_agrees_arcRegion :
    let region := sketch (arcRegion 2 0 (-1))
    (start.run (arcRegion 2 0 (-1))).value.CompletesRegion .endRegion ∧
      region.shape ≠ [] ∧
      ∀ outline ∈ region.kept, (∀ edge ∈ outline, edge.gap ≤ degenerateLength) ∧
        ∀ vertex ∈ outline.vertices,
          (region.box.padded degenerateLength).Holds vertex ∨
            vertex ∈ outline.displaced := by
  intro region
  have radius : (⟨2, 0⟩ : Point ℝ).distance ⟨1, 0⟩ = 1 := by
    norm_num [Point.distance_along]
  have length : (⟨0, 0⟩ : Point ℝ).distance ⟨1, 0⟩ = 1 := by
    norm_num [Point.distance_along]
  have found : ∃ curve,
      Arc.resolve? .multi false ⟨2, 0⟩ ⟨0, 0⟩ (⟨-1, 0⟩ : Point ℝ) = some curve ∧
      curve.center = ⟨1, 0⟩ ∧ curve.radius = (⟨2, 0⟩ : Point ℝ).distance ⟨1, 0⟩ :=
    Arc.exists_resolve (by norm_num) (by norm_num [radius, degenerateLength])
  rcases found with ⟨curve, resolved, center, extent⟩
  have completes := completes_arcRegion 2 0 (-1)
  have kept := kept_arcRegion resolved
  have some : region.shape ≠ [] := by
    simp [region, Sketch.shape, kept]
  have agrees := (region_agrees (arcRegion 2 0 (-1)) completes some).2
  refine ⟨completes, some, fun outline member => ?_⟩
  rcases agrees outline member with ⟨gaps, within⟩
  have narrow : ∀ edge ∈ outline, edge.gap ≤ degenerateLength := by
    intro edge isEdge
    refine ((gaps edge isEdge).mpr ?_).le
    have isOutline : outline = [.line ⟨0, 0⟩ ⟨2, 0⟩, .arc ⟨2, 0⟩ ⟨0, 0⟩ curve] := by
      simpa [region, kept] using member
    rw [isOutline] at isEdge
    simp only [List.mem_cons, List.not_mem_nil, or_false] at isEdge
    rcases isEdge with rfl | rfl
    · trivial
    · rw [Edge.Meets, Arc.Meets, center, extent, radius, length, sub_self, abs_zero]
      exact Arc.degenerateLength_pos
  exact ⟨narrow, (within degenerateLength narrow).2⟩

/-- The path of an edge ends at the end of the edge. -/
theorem exists_primitive_of_edge (edge : Edge ℝ) :
    ∃ primitive ∈ edge.primitives, primitive.edgeEnd? = some edge.finish := by
  cases edge with
  | line start finish => exact ⟨.lineTo finish, by simp [Edge.primitives], rfl⟩
  | arc start finish curve =>
      simp only [Edge.primitives]
      split
      · exact ⟨_, List.mem_cons_of_mem _ List.mem_cons_self, rfl⟩
      · exact ⟨_, List.mem_cons_self, rfl⟩

/-- An arc to a point off its circle does not come near that point. -/
theorem not_forall_vertex_near :
    ¬∀ commands : List (Command ℝ),
    (start.run commands).value.CompletesRegion .endRegion →
      ∀ outline ∈ (sketch commands).kept, ∀ primitive ∈ outline.subpath, ∀ point,
        primitive.edgeEnd? = some point →
          ∃ vertex ∈ outline.vertices, point.distance vertex < degenerateLength := by
  intro always
  have radius : (⟨1, 0⟩ : Point ℝ).distance ⟨2, 0⟩ = 1 := by
    norm_num [Point.distance_along]
  have found : ∃ curve,
      Arc.resolve? .multi false ⟨1, 0⟩ ⟨4, 0⟩ (⟨1, 0⟩ : Point ℝ) = some curve ∧
      curve.center = ⟨2, 0⟩ ∧ curve.radius = (⟨1, 0⟩ : Point ℝ).distance ⟨2, 0⟩ :=
    Arc.exists_resolve (by norm_num) (by norm_num [radius, degenerateLength])
  rcases found with ⟨curve, resolved, center, extent⟩
  rcases exists_primitive_of_edge (.arc ⟨1, 0⟩ ⟨4, 0⟩ curve) with ⟨primitive, own, ends⟩
  have member : [.line ⟨0, 0⟩ ⟨1, 0⟩, .arc ⟨1, 0⟩ ⟨4, 0⟩ curve] ∈
      (sketch (arcRegion 1 4 1)).kept := by
    rw [kept_arcRegion resolved]
    exact List.mem_singleton_self _
  have isPrimitive : primitive ∈
      Outline.subpath [.line ⟨0, 0⟩ ⟨1, 0⟩, .arc ⟨1, 0⟩ ⟨4, 0⟩ curve] := by
    simp [Outline.subpath, Outline.opened, own]
  rcases always _ (completes_arcRegion 1 4 1) _ member primitive isPrimitive _ ends with
    ⟨vertex, isVertex, near⟩
  have left : vertex.x ≤ 3 := by
    have drawn := Outline.mem_points_of_mem_vertices isVertex
    simp only [Outline.opened, Edge.start, List.flatMap_cons, List.flatMap_nil,
      Edge.points, List.cons_append, List.nil_append, List.append_nil,
      List.mem_cons] at drawn
    rcases drawn with rfl | rfl | onArc
    · norm_num
    · norm_num
    · rcases Arc.exists_angle_of_mem_points (List.mem_of_mem_tail onArc) with
          ⟨angle, -, rfl⟩
      have across : (curve.pointAt angle curve.radius).x = 2 + 1 * Real.cos angle := by
        rw [extent, radius]
        change curve.center.x + _ = _
        rw [center]
        rfl
      rw [across]
      linarith [Real.cos_le_one angle]
  have apart := (Point.abs_sub_x_le ⟨4, 0⟩ vertex).trans_lt near
  have far := (abs_lt.mp apart).2
  norm_num [degenerateLength] at far
  linarith

end Machine

end Photoplot
