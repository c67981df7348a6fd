import Photoplot.Proofs.Geometry.Translation
import Photoplot.Proofs.Plot.Operation

/-! # Moving the canvas

Every operation that is carried out elsewhere leaves the same things elsewhere: it
commutes with moving the canvas. Whether a chain goes on, a contour is closed or a
stroke has a length is decided by distances, which stay as they are. -/

namespace Photoplot

/-! ## Primitives -/

namespace Path.Primitive

def translate (offset : Point ℝ) : Primitive ℝ → Primitive ℝ
  | .moveTo point => .moveTo (.translate offset point)
  | .lineTo point => .lineTo (.translate offset point)
  | .arcTo radius large sweep finish =>
      .arcTo radius large sweep (.translate offset finish)
  | .close => .close
  | .polygon contour => .polygon (contour.map (.translate offset))
  | .circle center radius => .circle (.translate offset center) radius

end Path.Primitive

namespace Template

variable (offset : Point ℝ)

theorem place_translate (scale : ℝ) (origin : Point ℝ) (drawn : Local ℝ) :
    drawn.place scale (.translate offset origin) =
      (drawn.place scale origin).translate offset := by
  have moved : ∀ point : Point ℝ,
      Local.place.moved scale (.translate offset origin) point =
      .translate offset (Local.place.moved scale origin point) := by
    intro point
    ext <;> simp only [Local.place.moved, Point.translate_x, Point.translate_y] <;> ring
  cases drawn with
  | circle center radius => simp [Local.place, moved, Path.Primitive.translate]
  | polygon contour => simp [Local.place, moved, Path.Primitive.translate]

theorem primitives_translate (name : Text) (scale : ℝ) (origin : Point ℝ)
    (bindings : Bindings ℝ) (statement : Statement ℝ) :
    (statement.primitives name scale (.translate offset origin) bindings).value =
      (statement.primitives name scale origin bindings).value.map
        (.translate offset) := by
  cases statement with
  | draw exposure figure =>
      simp only [Statement.primitives]
      split
      · simp [place_translate]
      · rfl
      · rfl
  | _ => rfl

theorem run_translate (name : Text) (scale : ℝ) (origin : Point ℝ) (bindings : Bindings ℝ)
    (statements : List (Statement ℝ)) :
    (run name scale (.translate offset origin) bindings statements).value =
      (run name scale origin bindings statements).value.map (.translate offset) := by
  induction statements generalizing bindings with
  | nil => rfl
  | cons statement rest induction =>
      simp only [run, Noted.value_bind, Noted.value_pure, List.map_append,
        primitives_translate, induction]

end Template

/-! ## The canvas -/

def Plot.translate (offset : Point ℝ) (plot : Plot ℝ) : Plot ℝ :=
  ⟨plot.primitives.map (.translate offset),
    plot.shapes.map (List.map (List.map (.translate offset))),
    plot.centerlines.map (List.map (.translate offset)), plot.box.translate offset⟩

def OpenContour.translate (offset : Point ℝ) (contour : OpenContour ℝ) : OpenContour ℝ :=
  ⟨contour.points.map (.translate offset), contour.path.map (.translate offset),
    contour.box.translate offset⟩

namespace Canvas

variable (offset : Point ℝ)

def translate (canvas : Canvas ℝ) : Canvas ℝ :=
  ⟨canvas.plot.translate offset, canvas.chain.map (.translate offset),
    canvas.regionContours.map (List.map (.translate offset)),
    canvas.regionPath.map (.translate offset), canvas.regionBox.translate offset,
    canvas.contour.translate offset⟩

theorem together_translate (left right : Point ℝ) :
    Together (.translate offset left) (.translate offset right) ↔
      Together left right := by
  simp [Together]

theorem breakChain_translate (canvas : Canvas ℝ) :
    (canvas.translate offset).breakChain = canvas.breakChain.translate offset := by
  simp only [breakChain, translate, List.length_map]
  split
  · simp [Plot.translate]
  · rfl

theorem extendChain_translate (canvas : Canvas ℝ) (start : Point ℝ)
    (points : List (Point ℝ)) :
    (canvas.translate offset).extendChain (.translate offset start)
        (points.map (.translate offset)) =
      (canvas.extendChain start points).translate offset := by
  have last : (canvas.translate offset).chain.getLast? =
      canvas.chain.getLast?.map (.translate offset) := List.getLast?_map
  unfold extendChain
  rw [last]
  cases canvas.chain.getLast? with
  | none =>
      simp only [Option.map_none, Bool.false_eq_true, if_false, breakChain_translate]
      rfl
  | some final =>
      simp only [Option.map_some, together_translate, breakChain_translate]
      split <;> simp [translate]

theorem addObject_translate (canvas : Canvas ℝ) (primitives : List (Path.Primitive ℝ))
    (shape : Shape ℝ) (extent : List (Point ℝ)) :
    (canvas.translate offset).addObject (primitives.map (.translate offset))
        (shape.map (List.map (.translate offset))) (extent.map (.translate offset)) =
      (canvas.addObject primitives shape extent).translate offset := by
  simp [addObject, translate, Plot.translate, Box.coverAll_translate]

theorem strokeLine_translate (canvas : Canvas ℝ) (start finish : Point ℝ) (width : ℝ) :
    (canvas.translate offset).strokeLine (.translate offset start)
      (.translate offset finish)
        width =
      (canvas.strokeLine start finish width).translate offset := by
  simp only [strokeLine, Contour.stroke?_translate]
  cases Contour.stroke? start finish width with
  | none => rfl
  | some contour =>
      have extended := extendChain_translate offset canvas start [finish]
      simp only [Option.map_some, List.map_cons, List.map_nil] at extended ⊢
      rw [extended, ← addObject_translate]
      rfl

theorem circleSubpath_translate (arc : Arc ℝ) (radius : ℝ) (sweep : Bool) :
    circleSubpath (arc.translate offset) radius sweep =
      (circleSubpath arc radius sweep).map (.translate offset) := by
  simp only [circleSubpath, Arc.pointAt_translate]
  split <;> rfl

theorem bandPrimitives_translate (arc : Arc ℝ) (width : ℝ) :
    bandPrimitives (arc.translate offset) width =
      (bandPrimitives arc width).map (.translate offset) := by
  change (if arc.isFullCircle then _ else _) = _
  rw [bandPrimitives]
  split
  · rw [List.map_append, ← circleSubpath_translate, ← circleSubpath_translate]
    rfl
  · simp only [Arc.pointAt_translate, List.map_append]
    change _ ++ (if arc.innerRadius width < degenerateLength then _ else _) ++ _ = _
    split <;> rfl

theorem bandExtent_translate (arc : Arc ℝ) (width : ℝ) :
    bandExtent (arc.translate offset) width =
      (bandExtent arc width).map (.translate offset) := by
  have extremes :=
      Arc.extremes_translate offset { arc with radius := arc.outerRadius width }
  change Arc.extremes
    (Arc.translate offset { arc with radius := arc.outerRadius width }) ++
    (if arc.isFullCircle then _ else _) = _
  rw [extremes, bandExtent, List.map_append]
  congr 1
  split
  · rfl
  · simp only [bandCorners, Arc.pointAt_translate]
    rfl

theorem strokeArc_translate (canvas : Canvas ℝ) (start : Point ℝ)
    (arc : Arc ℝ) (width : ℝ) :
    (canvas.translate offset).strokeArc (.translate offset start)
      (arc.translate offset) width =
      (canvas.strokeArc start arc width).translate offset := by
  rw [strokeArc, bandPrimitives_translate, bandExtent_translate, Arc.band_translate,
    Arc.points_translate, ← List.map_tail, extendChain_translate, addObject_translate,
    strokeArc]

theorem stampOne_translate (canvas : Canvas ℝ) (primitive : Path.Primitive ℝ) :
    (canvas.translate offset).stampOne (primitive.translate offset) =
      (canvas.stampOne primitive).translate offset := by
  cases primitive with
  | circle center radius =>
      have corner : ∀ sign : ℝ,
          (⟨center.x + offset.x + sign, center.y + offset.y + sign⟩ : Point ℝ) =
            .translate offset ⟨center.x + sign, center.y + sign⟩ := by
        intro sign
        ext <;> simp only [Point.translate_x, Point.translate_y] <;> ring
      simp only [stampOne, Path.Primitive.translate]
      split
      · rfl
      · rw [← addObject_translate, Arc.circle_translate]
        simp only [Point.translate_x, Point.translate_y, sub_eq_add_neg, corner]
        rfl
  | polygon contour =>
      simp only [stampOne, Path.Primitive.translate, List.length_map]
      split
      · rfl
      · exact addObject_translate offset canvas [.polygon contour] [contour] contour
  | _ => rfl

theorem stamp_translate (canvas : Canvas ℝ) (primitives : List (Path.Primitive ℝ)) :
    (canvas.translate offset).stamp (primitives.map (.translate offset)) =
      (canvas.stamp primitives).translate offset := by
  rw [stamp, stamp, breakChain_translate]
  generalize canvas.breakChain = begun
  induction primitives generalizing begun with
  | nil => rfl
  | cons first rest induction =>
      rw [List.map_cons, List.foldl_cons, stampOne_translate, induction, List.foldl_cons]

/-! ### Regions -/

theorem startAt_translate (contour : OpenContour ℝ) (start : Point ℝ) :
    (contour.translate offset).startAt (.translate offset start) =
      (contour.startAt start).translate offset := by
  simp only [OpenContour.startAt, OpenContour.translate, List.isEmpty_map]
  split
  · simp [Box.cover_translate, Path.Primitive.translate]
  · rfl

theorem regionEdge_translate (canvas : Canvas ℝ) (start : Point ℝ)
    (points : List (Point ℝ))
    (primitives : List (Path.Primitive ℝ)) (extent : List (Point ℝ)) :
    (canvas.translate offset).regionEdge (.translate offset start)
        (points.map (.translate offset)) (primitives.map (.translate offset))
        (extent.map (.translate offset)) =
      (canvas.regionEdge start points primitives extent).translate offset := by
  have started := startAt_translate offset canvas.contour start
  change (canvas.translate offset).contour.startAt _ = _ at started
  simp only [regionEdge, started]
  simp [translate, OpenContour.translate, Box.coverAll_translate]

theorem openEnded_translate (points : Contour ℝ) :
    openEnded (points.map (.translate offset)) =
      (openEnded points).map (.translate offset) := by
  match points with
  | [] => rfl
  | [_] => rfl
  | first :: second :: rest =>
      have last :=
          @List.getLast?_map _ _ (Point.translate offset) (first :: second :: rest)
      simp only [List.map_cons] at last
      simp only [openEnded, List.map_cons, last]
      cases (first :: second :: rest).getLast? with
      | none => rfl
      | some final =>
          simp only [Option.map_some, together_translate]
          split
          · rw [List.map_dropLast, List.map_cons, List.map_cons]
          · rfl

theorem closeContour_translate (canvas : Canvas ℝ) :
    (canvas.translate offset).closeContour = canvas.closeContour.translate offset := by
  have points : (canvas.translate offset).contour.points =
      canvas.contour.points.map (.translate offset) := rfl
  simp only [closeContour, points, openEnded_translate, List.length_map]
  split
  · rfl
  · simp only [translate, OpenContour.translate, Box.join_translate, List.map_append]
    rfl

theorem endRegion_translate (canvas : Canvas ℝ) :
    (canvas.translate offset).endRegion = canvas.endRegion.translate offset := by
  rw [endRegion, endRegion, closeContour_translate]
  generalize canvas.closeContour = closed
  change (if (closed.regionContours.map _).isEmpty = true then _ else _) = _
  rw [List.isEmpty_map]
  split
  · rfl
  · simp [translate, Plot.translate, Box.join_translate]

/-! ### Operations -/

def Edge.translate : Edge ℝ → Edge ℝ
  | .line start finish => .line (.translate offset start) (.translate offset finish)
  | .arc start finish curve =>
      .arc (.translate offset start) (.translate offset finish) (curve.translate offset)

def Operation.translate : Operation ℝ → Operation ℝ
  | .strokeLine start finish width =>
      .strokeLine (.translate offset start) (.translate offset finish) width
  | .strokeArc start arc width =>
      .strokeArc (.translate offset start) (arc.translate offset) width
  | .stamp primitives => .stamp (primitives.map (.translate offset))
  | .drawEdge edge => .drawEdge (edge.translate offset)
  | operation => operation

theorem drawEdge_translate (canvas : Canvas ℝ) (edge : Edge ℝ) :
    (canvas.translate offset).drawEdge (edge.translate offset) =
      (canvas.drawEdge edge).translate offset := by
  cases edge with
  | line start finish =>
      exact regionEdge_translate offset canvas start [finish] [.lineTo finish] [finish]
  | arc start finish curve =>
      have primitives : (Edge.translate offset (.arc start finish curve)).primitives =
          (Edge.arc start finish curve).primitives.map (.translate offset) := by
        have opposite := Arc.pointAt_translate offset curve
          (curve.start + curve.sweep / 2.0) curve.radius
        change (if curve.isFullCircle then _ else _) = _
        simp only [Edge.primitives]
        split
        · simp only [List.map_cons, List.map_nil, Path.Primitive.translate, ← opposite]
          rfl
        · rfl
      have extent : (Edge.translate offset (.arc start finish curve)).extent =
          (Edge.arc start finish curve).extent.map (.translate offset) :=
        congrArg (List.cons _) (Arc.extremes_translate offset curve)
      have points : (Edge.translate offset (.arc start finish curve)).points =
          (Edge.arc start finish curve).points.map (.translate offset) := by
        change (curve.translate offset).points.tail = curve.points.tail.map _
        rw [Arc.points_translate, List.map_tail]
      rw [drawEdge, drawEdge, points, primitives, extent]
      exact regionEdge_translate offset canvas _ _ _ _

theorem carryOut_translate (canvas : Canvas ℝ) (operation : Operation ℝ) :
    (canvas.translate offset).carryOut (operation.translate offset) =
      (canvas.carryOut operation).translate offset := by
  cases operation with
  | breakChain => exact breakChain_translate offset canvas
  | strokeLine start finish width =>
      exact strokeLine_translate offset canvas start finish width
  | strokeArc start arc width => exact strokeArc_translate offset canvas start arc width
  | stamp primitives => exact stamp_translate offset canvas primitives
  | beginRegion => exact congrArg discardRegion (breakChain_translate offset canvas)
  | drawEdge edge => exact drawEdge_translate offset canvas edge
  | closeContour => exact closeContour_translate offset canvas
  | endRegion => exact endRegion_translate offset canvas
  | discardRegion => rfl

theorem finish_translate (canvas : Canvas ℝ) :
    (canvas.translate offset).finish = canvas.finish.translate offset := by
  rw [finish, breakChain_translate]
  rfl

end Canvas

end Photoplot
