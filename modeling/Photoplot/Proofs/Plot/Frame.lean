import Photoplot.Proofs.Plot.Inventory

/-! # Tight boxes

Without arcs the box of a plot is the least one around what is in the plot. A region keeps
two boxes of its own, one around the open contour and one around the contours that were
closed; they are joined when the path that they belong to is, and forgotten with it. -/

namespace Photoplot

/-! ## Corners -/

section Corners

variable {K : Type} [Scalar K]

def Path.Primitive.corners : Path.Primitive K → List (Point K)
  | .moveTo point | .lineTo point => [point]
  | .arcTo _ _ _ finish => [finish]
  | .close => []
  | .polygon contour => contour
  | .circle center radius =>
      [⟨center.x - radius, center.y - radius⟩, ⟨center.x + radius, center.y + radius⟩]

def Plot.corners (plot : Plot K) : List (Point K) :=
  plot.primitives.flatMap Path.Primitive.corners

def Plot.IsFramed (plot : Plot K) : Prop :=
  (∀ point ∈ plot.corners, point.IsComparable) → plot.box.Frames plot.corners

theorem Plot.IsFramed.of_sameObjects {plot other : Plot K} (framed : plot.IsFramed)
    (same : plot.SameObjects other) : other.IsFramed := by
  rcases same with ⟨primitives, -, box⟩
  unfold IsFramed corners
  rw [primitives, box]
  exact framed

end Corners

namespace Canvas

variable {K : Type} [PlaneScalar K]

def Operation.followsArc : Operation K → Bool
  | .strokeArc .. | .drawEdge (.arc ..) => true
  | _ => false

/-! ## Strokes and flashes -/

section Objects

variable [Scalar.Ordered K] {canvas : Canvas K}

theorem isFramed_addObject (framed : canvas.plot.IsFramed)
    {primitives : List (Path.Primitive K)} {shape : Shape K} {extent : List (Point K)}
    (spans : primitives.flatMap Path.Primitive.corners = extent) :
    (canvas.addObject primitives shape extent).plot.IsFramed := by
  intro comparable
  have together : (canvas.addObject primitives shape extent).plot.corners =
      canvas.plot.corners ++ extent := by
    simp only [addObject, Plot.corners, List.flatMap_append, spans]
  rw [together] at comparable ⊢
  exact (framed fun point member =>
    comparable point (List.mem_append_left _ member)).coverAll _

theorem isFramed_strokeLine (framed : canvas.plot.IsFramed) (start finish : Point K)
    (width : K) : (canvas.strokeLine start finish width).plot.IsFramed := by
  unfold strokeLine
  split
  · exact framed
  · have continued :=
        framed.of_sameObjects (canvas.sameObjects_extendChain start [finish])
    exact isFramed_addObject continued (List.append_nil _)

theorem isFramed_stampOne (framed : canvas.plot.IsFramed) (primitive : Path.Primitive K) :
    (canvas.stampOne primitive).plot.IsFramed := by
  unfold stampOne
  split
  · split
    · exact framed
    · exact isFramed_addObject framed rfl
  · split
    · exact framed
    · exact isFramed_addObject framed (List.append_nil _)
  · exact framed

theorem isFramed_stamp (framed : canvas.plot.IsFramed)
    (primitives : List (Path.Primitive K)) :
    (canvas.stamp primitives).plot.IsFramed := by
  have begun := framed.of_sameObjects canvas.sameObjects_breakChain
  unfold stamp
  generalize canvas.breakChain = current at begun
  induction primitives generalizing current with
  | nil => exact begun
  | cons first rest induction => exact induction _ (isFramed_stampOne begun first)

end Objects

/-! ## Regions -/

theorem corners_primitives {edge : Edge K}
    (straight : (Operation.drawEdge edge).followsArc = false) :
    edge.primitives.flatMap Path.Primitive.corners = edge.extent := by
  cases edge with
  | line start finish => rfl
  | arc start finish curve => cases straight

/-- The box of a contour is drawn around the points that its path goes through. -/
theorem box_opened {outline : Outline K}
    (straight : ∀ edge ∈ outline, (Operation.drawEdge edge).followsArc = false) :
    outline.opened.box =
      Box.empty.coverAll (outline.subpath.flatMap Path.Primitive.corners) := by
  cases outline with
  | nil => rfl
  | cons first rest =>
      have edges :
          ((first :: rest).flatMap Edge.primitives).flatMap Path.Primitive.corners =
          (first :: rest).flatMap Edge.extent := by
        rw [List.flatMap_assoc]
        exact List.flatMap_congr fun edge isEdge =>
          corners_primitives (straight edge isEdge)
      simp only [Outline.subpath, Outline.opened, List.cons_append, List.flatMap_cons,
        List.flatMap_append, List.flatMap_nil, List.append_nil] at edges ⊢
      rw [edges]
      simp [Path.Primitive.corners, Box.coverAll]

variable [Scalar.Ordered K]

theorem frames_joinBoxes {outlines : List (Outline K)}
    (straight : ∀ outline ∈ outlines, ∀ edge ∈ outline,
      (Operation.drawEdge edge).followsArc = false)
    (comparable : ∀ point ∈ (outlines.flatMap Outline.subpath).flatMap
      Path.Primitive.corners,
      point.IsComparable) :
    (Sketch.joinBoxes outlines).Frames
      ((outlines.flatMap Outline.subpath).flatMap Path.Primitive.corners) := by
  induction outlines using List.reverseRecOn with
  | nil => exact Box.frames_empty
  | append_singleton outlines last induction =>
      simp only [List.flatMap_append, List.flatMap_cons, List.flatMap_nil,
        List.append_nil]
        at comparable ⊢
      have before := induction (fun outline member => straight outline (by simp [member]))
        fun point member => comparable point (List.mem_append_left _ member)
      have own :
          last.opened.box.Frames (last.subpath.flatMap Path.Primitive.corners) := by
        rw [box_opened (straight last (by simp))]
        exact Box.frames_empty.coverAll _
      have joined : Sketch.joinBoxes (outlines ++ [last]) =
          (Sketch.joinBoxes outlines).join last.opened.box := by
        simp [Sketch.joinBoxes]
      rw [joined]
      exact before.join own fun point member =>
        comparable point (List.mem_append_right _ member)

theorem isFramed_endRegion {canvas : Canvas K} {sketch : Sketch K}
    (holds : canvas.collected = sketch.collected)
    (straight : ∀ outline ∈ sketch.kept, ∀ edge ∈ outline,
      (Operation.drawEdge edge).followsArc = false)
    (framed : canvas.plot.IsFramed) : canvas.endRegion.plot.IsFramed := by
  have ended := (objects_endRegion holds).2
  split at ended
  · exact framed.of_sameObjects ended
  · rcases ended with ⟨primitives, -, box⟩
    intro comparable
    simp only [Plot.corners, primitives, List.flatMap_append] at comparable ⊢
    rw [box]
    exact (framed fun point member =>
      comparable point (List.mem_append_left _ member)).join
      (frames_joinBoxes straight fun point member =>
        comparable point (List.mem_append_right _ member))
      fun point member => comparable point (List.mem_append_right _ member)

/-! ## Runs -/

def drawn (operations : List (Operation K)) : Plot K :=
    (operations.foldl carryOut empty).finish

def sketched (operations : List (Operation K)) : Sketch K :=
    operations.foldl Sketch.draw .empty

omit [Scalar.Ordered K] in
theorem collected_sketched (operations : List (Operation K)) :
    (operations.foldl carryOut empty).collected = (sketched operations).collected := by
  have begun : (empty : Canvas K).collected = Sketch.empty.collected := rfl
  exact collected_foldl begun operations

theorem isFramed_foldl {operations : List (Operation K)}
    (straight : ∀ operation ∈ operations, operation.followsArc = false) :
    (operations.foldl carryOut empty).plot.IsFramed := by
  induction operations using List.reverseRecOn with
  | nil => exact fun _ => Box.frames_empty
  | append_singleton operations operation induction =>
      have framed := induction fun other member => straight other (by simp [member])
      rw [List.foldl_append, List.foldl_cons, List.foldl_nil]
      generalize isCanvas : operations.foldl carryOut empty = canvas at framed
      cases operation with
      | strokeLine start finish width =>
          exact isFramed_strokeLine framed start finish width
      | strokeArc start arc width => cases straight (.strokeArc start arc width) (by simp)
      | stamp primitives => exact isFramed_stamp framed primitives
      | endRegion =>
          have collected : canvas.collected = (sketched operations).collected := by
            rw [← isCanvas]
            exact collected_sketched operations
          refine isFramed_endRegion collected ?_ framed
          intro outline member edge isEdge
          have onSketch := (List.mem_filter.mp member).1
          rcases Sketch.drawEdge_mem onSketch isEdge with earlier | ⟨other, none, own⟩
          · exact straight _ (List.mem_append_left _ earlier)
          · rcases List.mem_singleton.mp none with rfl
            cases own
      | _ => exact framed.of_sameObjects (canvas.sameObjects_carryOut id)

/-! ## Contributions -/

omit [Scalar.Ordered K] in
/-- What an operation leaves, and why: a stroke that has a length, a flashed figure that
has an extent, or the contours of a region that enclose something. -/
inductive Contributes (sketch : Sketch K) : Operation K → PlottedObject K → Prop
  | stroke {start finish : Point K} {width : K} {contour : Contour K}
      (long : ¬finish.distance start < degenerateLength)
      (swept : Contour.stroke? start finish width = some contour) :
      Contributes sketch (.strokeLine start finish width) (.ofContour contour)
  | circle {primitives : List (Path.Primitive K)} {center : Point K} {radius : K}
      (flashed : .circle center radius ∈ primitives) (wide : ¬radius ≤ 0.0) :
      Contributes sketch (.stamp primitives)
        ⟨[.circle center radius], [Contour.circle center radius]⟩
  | polygon {primitives : List (Path.Primitive K)} {contour : Contour K}
      (flashed : .polygon contour ∈ primitives) (enough : 3 ≤ contour.length) :
      Contributes sketch (.stamp primitives) (.ofContour contour)
  | region (some : sketch.kept ≠ [])
      (enough : ∀ outline ∈ sketch.kept, 3 ≤ outline.vertices.length) :
      Contributes sketch .endRegion ⟨sketch.path, sketch.shape⟩

omit [Scalar.Ordered K] in
theorem contributes_of_mem_objects {sketch : Sketch K} {operation : Operation K}
    (straight : operation.followsArc = false) {object : PlottedObject K}
    (left : object ∈ operation.objects sketch) : Contributes sketch operation object := by
  cases operation with
  | strokeLine start finish width =>
      rcases List.mem_map.mp left with ⟨contour, isStroke, rfl⟩
      have swept := Option.mem_toList.mp isStroke
      refine .stroke (fun short => ?_) swept
      rw [Contour.stroke?_eq_none_iff.mpr short] at swept
      cases swept
  | strokeArc start arc width => cases straight
  | stamp primitives =>
      rcases List.mem_filterMap.mp left with ⟨primitive, flashed, stamped⟩
      rcases PlottedObject.stamped_cases stamped with
        ⟨center, radius, wide, rfl, rfl⟩ | ⟨contour, enough, rfl, rfl⟩
      · exact .circle flashed wide
      · exact .polygon flashed enough
  | endRegion =>
      simp only [Operation.objects] at left
      split at left
      · cases left
      · rename_i some
        rcases List.mem_singleton.mp left with rfl
        refine .region (fun none => some (by simp [Sketch.shape, none])) ?_
        intro outline member
        exact of_decide_eq_true (List.mem_filter.mp member).2
  | _ => cases left

omit [Scalar.Ordered K] in
theorem exists_contributes_of_mem_objectsOf {operations : List (Operation K)}
    (straight : ∀ operation ∈ operations, operation.followsArc = false)
    {sketch : Sketch K}
    {object : PlottedObject K} (left : object ∈ objectsOf sketch operations) :
    ∃ before operation after, operations = before ++ operation :: after ∧
      Contributes (before.foldl Sketch.draw sketch) operation object := by
  induction operations generalizing sketch with
  | nil => cases left
  | cons first rest induction =>
      rcases List.mem_append.mp left with own | later
      · exact ⟨[], first, rest, rfl,
          contributes_of_mem_objects (straight first (by simp)) own⟩
      · rcases induction (fun other member =>
            straight other (by simp [member])) later with
          ⟨before, operation, after, rfl, contributes⟩
        exact ⟨first :: before, operation, after, rfl, contributes⟩

/-! ## The box of a plot -/

/-- The box of a plot without arcs is the least one around its primitives, and empty if
there are none, as far as numbers can be compared. Only operations that leave something
contribute to it: strokes without length, figures without extent, contours of fewer than
three vertices and regions that are discarded or never end are not in the plot. -/
theorem frames_drawn {operations : List (Operation K)}
    (straight : ∀ operation ∈ operations, operation.followsArc = false)
    (comparable : ∀ point ∈ (drawn operations).corners, point.IsComparable) :
    (drawn operations).box.Frames (drawn operations).corners ∧
      ((drawn operations).primitives = [] → (drawn operations).box = .empty) ∧
      ∃ objects, (drawn operations).HasObjects objects ∧
        ∀ object ∈ objects, ∃ before operation after,
          operations = before ++ operation :: after ∧
            Contributes (sketched before) operation object := by
  have finished := (operations.foldl carryOut empty).sameObjects_breakChain
  have framed : (drawn operations).box.Frames (drawn operations).corners :=
    (isFramed_foldl straight).of_sameObjects finished comparable
  refine ⟨framed, fun none => framed.nothing ?_, objectsOf .empty operations, ?_, ?_⟩
  · rw [Plot.corners, none, List.flatMap_nil]
  · have blank : (empty : Canvas K).plot.HasObjects [] := ⟨rfl, rfl⟩
    have begun : (empty : Canvas K).collected = Sketch.empty.collected := rfl
    exact (hasObjects_foldl begun blank operations).of_sameObjects finished
  · exact fun object left => exists_contributes_of_mem_objectsOf straight left

/-- A stroke, a round pad and a triangle, among things far off that leave nothing. -/
def litteredPage : List (Operation Float) :=
  let edge (x y x' y' : Float) : Operation Float := .drawEdge (.line ⟨x, y⟩ ⟨x', y'⟩)
  [.strokeLine ⟨0, 0⟩ ⟨4, 0⟩ 2, .strokeLine ⟨50, 50⟩ ⟨50, 50⟩ 2,
    .stamp [.circle ⟨1, 5⟩ 1, .circle ⟨70, 0⟩ (-3), .polygon [⟨80, 0⟩, ⟨90, 0⟩]],
    .beginRegion, edge 0 0 (-2) 0, edge (-2) 0 0 3, edge 0 3 0 0, .closeContour,
    edge 60 60 61 60, .endRegion,
    .beginRegion, edge 100 100 110 100, .discardRegion, edge 200 200 210 200]

theorem frames_drawn_litteredPage :
    (∀ operation ∈ litteredPage, operation.followsArc = false) ∧
      (∀ point ∈ (drawn litteredPage).corners, point.IsComparable) ∧
      (drawn litteredPage).box = ⟨.between (-2) 4, .between (-1) 6⟩ ∧
      (drawn litteredPage).box.Frames (drawn litteredPage).corners := by
  have straight : ∀ operation ∈ litteredPage, operation.followsArc = false := by decide
  have comparable : ∀ point ∈ (drawn litteredPage).corners, point.IsComparable := by
    decide +kernel
  refine ⟨straight, comparable, ?_, (frames_drawn straight comparable).1⟩
  decide +kernel

end Canvas

end Photoplot
