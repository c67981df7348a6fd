import Photoplot.Proofs.Path.Grammar
import Photoplot.Proofs.Plot.Inventory

/-! # Closed rows of primitives

Whatever is plotted comes as closed figures: polygons with three vertices or
more, circles, and outlines that begin with a move and end with a closing step.
No outline is left open and none is empty, so that the path of a plot is a row of
closed subpaths. -/

namespace Photoplot

namespace Path

variable {K : Type}

def Primitive.IsEdge : Primitive K → Prop
  | .lineTo _ | .arcTo .. => True
  | _ => False

inductive ClosedRow : List (Primitive K) → Prop
  | nil : ClosedRow []
  | polygon {contour : Contour K} {rest : List (Primitive K)}
      (enough : 3 ≤ contour.length)
      (later : ClosedRow rest) : ClosedRow (.polygon contour :: rest)
  | circle {center : Point K} {radius : K} {rest : List (Primitive K)}
      (later : ClosedRow rest) : ClosedRow (.circle center radius :: rest)
  | outline (start : Point K) {edges rest : List (Primitive K)} (some : edges ≠ [])
      (areEdges : ∀ edge ∈ edges, edge.IsEdge) (later : ClosedRow rest) :
      ClosedRow (.moveTo start :: (edges ++ .close :: rest))

theorem ClosedRow.append {first second : List (Primitive K)} (closed : ClosedRow first)
    (also : ClosedRow second) : ClosedRow (first ++ second) := by
  induction closed with
  | nil => exact also
  | polygon enough later induction => exact .polygon enough induction
  | circle later induction => exact .circle induction
  | outline start some areEdges later induction =>
      have longer := ClosedRow.outline start some areEdges induction
      simpa using longer

theorem closedRow_flatMap {α : Type} (items : List α) (row : α → List (Primitive K))
    (closed : ∀ item ∈ items, ClosedRow (row item)) : ClosedRow (items.flatMap row) := by
  induction items with
  | nil => exact .nil
  | cons item rest induction =>
      have others := induction fun other member => closed other (by simp [member])
      exact (closed item (by simp)).append others

/-! ## The commands of a closed row -/

variable [Scalar K]

theorem isCoordinate_pair (point : Point K) : ∀ number ∈ pair point,
    IsCoordinate K number := by
  intro number member
  simp only [pair, List.mem_cons, List.not_mem_nil, or_false] at member
  rcases member with rfl | rfl
  · exact ⟨_, rfl⟩
  · exact ⟨_, rfl⟩

theorem isCoordinate_arc (radius : K) (large sweep : Bool) (finish : Point K) :
    ∀ number ∈ (Segment.arc (Scalar.coordinate radius) large sweep
      (Scalar.coordinate finish.x)
      (Scalar.coordinate finish.y)).numbers, IsCoordinate K number := by
  intro number member
  rcases List.mem_cons.mp member with rfl | later
  · exact ⟨_, rfl⟩
  · exact isCoordinate_pair finish number later

theorem drawn_polygon {contour : Contour K} (enough : 3 ≤ contour.length) :
    Drawn (IsCoordinate K) (contourCommands contour) := by
  match contour, enough with
  | first :: second :: rest, _ =>
      let line (point : Point K) : Segment :=
        .line (Scalar.coordinate point.x) (Scalar.coordinate point.y)
      refine ⟨[⟨Scalar.coordinate first.x, Scalar.coordinate first.y, line second,
        rest.map line⟩], ?_, ?_⟩
      · intro subpath member number isNumber
        rcases List.mem_singleton.mp member with rfl
        rcases List.mem_append.mp isNumber with start | later
        · exact isCoordinate_pair first number start
        · rw [← List.map_cons (f := line)] at later
          rcases List.mem_flatMap.mp later with ⟨segment, isSegment, own⟩
          rcases List.mem_map.mp isSegment with ⟨point, -, rfl⟩
          exact isCoordinate_pair point number own
      · simp [contourCommands, Subpath.commands, pair, Segment.command, line]

theorem drawn_circle (center : Point K) (radius : K) :
    Drawn (IsCoordinate K) (Primitive.circle center radius).commands := by
  let arc (finish : Point K) : Segment :=
    .arc (Scalar.coordinate radius) false true (Scalar.coordinate finish.x)
      (Scalar.coordinate finish.y)
  let right : Point K := ⟨center.x + radius, center.y⟩
  let left : Point K := ⟨center.x - radius, center.y⟩
  refine ⟨[⟨Scalar.coordinate right.x, Scalar.coordinate right.y, arc left, [arc right]⟩],
    ?_, rfl⟩
  intro subpath member number isNumber
  rcases List.mem_singleton.mp member with rfl
  rcases List.mem_append.mp isNumber with start | later
  · exact isCoordinate_pair right number start
  · simp only [List.flatMap_cons, List.flatMap_nil, List.append_nil,
      List.mem_append] at later
    rcases later with first | second
    · exact isCoordinate_arc radius false true left number first
    · exact isCoordinate_arc radius false true right number second

theorem exists_segments {edges : List (Primitive K)}
    (areEdges : ∀ edge ∈ edges, edge.IsEdge) :
    ∃ segments : List Segment,
      (∀ number ∈ segments.flatMap Segment.numbers, IsCoordinate K number) ∧
        segments.length = edges.length ∧
        edges.flatMap Primitive.commands = segments.map Segment.command := by
  induction edges with
  | nil => exact ⟨[], by simp, rfl, rfl⟩
  | cons edge rest induction =>
      rcases induction fun other member => areEdges other (by simp [member]) with
        ⟨segments, numbers, same, spelled⟩
      have isEdge := areEdges edge (by simp)
      cases edge with
      | lineTo point =>
          refine ⟨
            .line (Scalar.coordinate point.x) (Scalar.coordinate point.y) :: segments,
            ?_, by simp [same], ?_⟩
          · intro number member
            rcases List.mem_append.mp member with own | later
            · exact isCoordinate_pair point number own
            · exact numbers number later
          · rw [List.flatMap_cons, spelled]
            rfl
      | arcTo radius large sweep finish =>
          refine ⟨.arc (Scalar.coordinate radius) large sweep (Scalar.coordinate finish.x)
            (Scalar.coordinate finish.y) :: segments, ?_, by simp [same], ?_⟩
          · intro number member
            rcases List.mem_append.mp member with own | later
            · exact isCoordinate_arc radius large sweep finish number own
            · exact numbers number later
          · rw [List.flatMap_cons, spelled]
            rfl
      | moveTo point => exact isEdge.elim
      | close => exact isEdge.elim
      | polygon contour => exact isEdge.elim
      | circle center radius => exact isEdge.elim

theorem drawn_outline (start : Point K) {edges : List (Primitive K)} (some : edges ≠ [])
    (areEdges : ∀ edge ∈ edges, edge.IsEdge) :
    Drawn (IsCoordinate K)
      ((.moveTo start :: (edges ++ [.close])).flatMap Primitive.commands) := by
  rcases exists_segments areEdges with ⟨segments, numbers, same, spelled⟩
  cases segments with
  | nil =>
      rw [List.length_nil] at same
      exact absurd (List.length_eq_zero_iff.mp same.symm) some
  | cons first rest =>
      refine ⟨[⟨Scalar.coordinate start.x, Scalar.coordinate start.y, first, rest⟩], ?_,
        ?_⟩
      · intro subpath member number isNumber
        rcases List.mem_singleton.mp member with rfl
        rcases List.mem_append.mp isNumber with isStart | later
        · exact isCoordinate_pair start number isStart
        · exact numbers number later
      · rw [List.flatMap_cons, List.flatMap_append, spelled, List.flatMap_singleton]
        simp [Primitive.commands, Subpath.commands, pair]

theorem ClosedRow.drawn {primitives : List (Primitive K)}
    (closed : ClosedRow primitives) :
    Drawn (IsCoordinate K) (primitives.flatMap Primitive.commands) := by
  induction closed with
  | nil => exact drawn_nil
  | polygon enough later induction => exact (drawn_polygon enough).append induction
  | circle later induction => exact (drawn_circle _ _).append induction
  | @outline start edges rest some areEdges later induction =>
      have regrouped : Primitive.moveTo start :: (edges ++ .close :: rest) =
          (.moveTo start :: (edges ++ [.close])) ++ rest := by simp
      rw [regrouped, List.flatMap_append]
      exact (drawn_outline start some areEdges).append induction

theorem ClosedRow.commands_ne_nil {primitives : List (Primitive K)}
    (closed : ClosedRow primitives) :
    ∀ primitive ∈ primitives, primitive.commands ≠ [] := by
  induction closed with
  | nil => simp
  | @polygon contour rest enough later induction =>
      intro primitive member
      rcases List.mem_cons.mp member with rfl | isLater
      · match contour, enough with
        | first :: _, _ => simp [Primitive.commands, contourCommands]
      · exact induction primitive isLater
  | circle later induction =>
      intro primitive member
      rcases List.mem_cons.mp member with rfl | isLater
      · simp [Primitive.commands]
      · exact induction primitive isLater
  | outline start some areEdges later induction =>
      intro primitive member
      rcases List.mem_cons.mp member with rfl | within
      · simp [Primitive.commands]
      · rcases List.mem_append.mp within with isEdge | closing
        · have edge := areEdges primitive isEdge
          cases primitive with
          | lineTo point => simp [Primitive.commands]
          | arcTo radius large sweep finish => simp [Primitive.commands]
          | _ => exact edge.elim
        · rcases List.mem_cons.mp closing with rfl | isLater
          · simp [Primitive.commands]
          · exact induction primitive isLater

/-- The path of primitives that all spell something is spelled at once. -/
theorem ofPrimitives_eq_spell {primitives : List (Primitive K)}
    (some : ∀ primitive ∈ primitives, primitive.commands ≠ []) :
    ofPrimitives primitives = Command.spell (primitives.flatMap Primitive.commands) := by
  have words : ∀ group ∈ primitives.map fun primitive =>
      primitive.commands.flatMap Command.words, group ≠ [] := by
    intro group member
    rcases List.mem_map.mp member with ⟨primitive, isPrimitive, rfl⟩
    cases spelled : primitive.commands with
    | nil => exact absurd spelled (some primitive isPrimitive)
    | cons first rest => simp [Command.words]
  have texts : (primitives.map fun primitive =>
      Command.spell primitive.commands).dropWhile
      List.isEmpty = primitives.map fun primitive =>
        Command.spell primitive.commands := by
    cases primitives with
    | nil => rfl
    | cons primitive rest =>
        have first : Command.spell primitive.commands ≠ [] := by
          cases spelled : primitive.commands with
          | nil => exact absurd spelled (some primitive (by simp))
          | cons command others =>
              cases others <;> cases command.operands <;>
                simp [Command.spell, Command.words, Text.join]
        simp [first]
  have joined := Text.join_join [' '] _ words
  rw [ofPrimitives]
  simp only [texts]
  rw [List.map_map] at joined
  rw [show (fun primitive : Primitive K => Command.spell primitive.commands) =
    Text.join [' '] ∘ fun primitive => primitive.commands.flatMap Command.words
      from rfl, joined, Command.spell, ← List.flatMap_def,
    List.flatMap_assoc]

end Path

/-! ## Outlines of regions -/

namespace Canvas

variable {K : Type} [PlaneScalar K]

theorem Edge.primitives_ne_nil (edge : Edge K) : edge.primitives ≠ [] := by
  cases edge with
  | line start finish => simp [primitives]
  | arc start finish curve =>
      simp only [primitives]
      split <;> simp

theorem Edge.isEdge_primitives (edge : Edge K) :
    ∀ primitive ∈ edge.primitives, primitive.IsEdge := by
  intro primitive member
  cases edge with
  | line start finish =>
      rcases List.mem_singleton.mp member with rfl
      trivial
  | arc start finish curve =>
      simp only [primitives] at member
      split at member
      · simp only [List.mem_cons, List.not_mem_nil, or_false] at member
        rcases member with rfl | rfl <;> trivial
      · rcases List.mem_singleton.mp member with rfl
        trivial

theorem Outline.isEdge_primitives (outline : Outline K) :
    ∀ primitive ∈ outline.flatMap Edge.primitives, primitive.IsEdge := by
  intro primitive member
  rcases List.mem_flatMap.mp member with ⟨edge, -, own⟩
  exact edge.isEdge_primitives primitive own

/-- A contour with enough vertices has an edge. -/
theorem Outline.closedRow_subpath {outline : Outline K} (kept : outline.IsKept = true) :
    Path.ClosedRow outline.subpath := by
  cases outline with
  | nil => simp [IsKept, vertices, openEnded, OpenContour.empty] at kept
  | cons first rest =>
      have some : (first :: rest).flatMap Edge.primitives ≠ [] := by
        simp [first.primitives_ne_nil]
      exact .outline first.start some (isEdge_primitives (first :: rest)) .nil

theorem Sketch.closedRow_path (sketch : Sketch K) : Path.ClosedRow sketch.path := by
  apply Path.closedRow_flatMap
  intro outline member
  exact Outline.closedRow_subpath (List.mem_filter.mp member).2

/-! ## Strokes and flashes -/

theorem closedRow_circleSubpath (arc : Arc K) (radius : K) (sweep : Bool) :
    Path.ClosedRow (circleSubpath arc radius sweep) := by
  unfold circleSubpath
  split
  · exact .nil
  · let edges : List (Path.Primitive K) :=
      [.arcTo radius false sweep (arc.pointAt PlaneScalar.pi radius),
        .arcTo radius false sweep (arc.pointAt 0.0 radius)]
    have areEdges : ∀ edge ∈ edges, edge.IsEdge := by
      intro edge member
      simp only [edges, List.mem_cons, List.not_mem_nil, or_false] at member
      rcases member with rfl | rfl <;> trivial
    exact .outline (arc.pointAt 0.0 radius)
      (show edges ≠ [] by simp [edges]) areEdges .nil

theorem closedRow_bandPrimitives (arc : Arc K) (width : K) :
    Path.ClosedRow (bandPrimitives arc width) := by
  simp only [bandPrimitives]
  split
  · exact (closedRow_circleSubpath _ _ _).append (closedRow_circleSubpath _ _ _)
  · let outer : List (Path.Primitive K) :=
      [.arcTo (arc.outerRadius width) arc.isLarge arc.isCounterclockwise
          (arc.pointAt arc.finish (arc.outerRadius width)),
        .lineTo (arc.pointAt arc.finish (arc.innerRadius width))]
    have areEdges : ∀ back : List (Path.Primitive K), (∀ edge ∈ back, edge.IsEdge) →
        ∀ edge ∈ outer ++ back, edge.IsEdge := by
      intro back backEdges edge member
      rcases List.mem_append.mp member with ahead | isBack
      · simp only [outer, List.mem_cons, List.not_mem_nil, or_false] at ahead
        rcases ahead with rfl | rfl <;> trivial
      · exact backEdges edge isBack
    have some : ∀ back : List (Path.Primitive K), outer ++ back ≠ [] := by simp [outer]
    split
    · exact .outline _ (some []) (areEdges [] (by simp)) .nil
    · refine .outline _ (some [_]) (areEdges [_] ?_) .nil
      intro edge member
      rcases List.mem_singleton.mp member with rfl
      trivial

/-! ## Plots -/

theorem closedRow_of_leaves {sketch : Sketch K} {operation : Operation K}
    {object : PlottedObject K} (leaves : Leaves sketch operation object) :
    Path.ClosedRow object.primitives := by
  cases leaves with
  | contour corners => exact .polygon corners .nil
  | circle center radius => exact .circle .nil
  | band start arc width => exact closedRow_bandPrimitives arc width
  | region some => exact sketch.closedRow_path

end Canvas

namespace Machine

variable {K : Type} [PlaneScalar K]

theorem closedRow_object {commands : List (Command K)} {object : PlottedObject K}
    (member : object ∈ objects commands) : Path.ClosedRow object.primitives := by
  rcases Canvas.exists_leaves_of_mem_objectsOf member with ⟨operation, -, sketch, leaves⟩
  exact Canvas.closedRow_of_leaves leaves

/-- Whatever the commands, a plot is a row of closed figures. -/
theorem closedRow_plot (commands : List (Command K)) :
    Path.ClosedRow (plot commands).value.primitives := by
  rw [(hasObjects_plot commands).primitives]
  exact Path.closedRow_flatMap _ _ fun _ => closedRow_object

end Machine

end Photoplot
