import Photoplot.Proofs.Geometry.Extent
import Photoplot.Proofs.Plot.Operation

/-! # Regions

A region is collected aside, in several buffers of the canvas. What they hold is
described by a sketch: the edges of the region's contours, in the order in which
they were drawn. The sketch is forgotten when the region ends, however it ends,
and only a dark end of the region copies it into the plot. -/

namespace Photoplot

/-- Only a line without length has no rectangle. -/
theorem Contour.stroke?_eq_none_iff {K : Type} [PlaneScalar K] {start finish : Point K}
    {width : K} :
    Contour.stroke? start finish width = none ↔
      finish.distance start < degenerateLength := by
  simp only [Contour.stroke?, Point.distance, ite_eq_left_iff, reduceCtorEq, imp_false,
    not_not]

/-! ## Plots that grow -/

namespace Plot

variable {K : Type}

def SameObjects (plot other : Plot K) : Prop :=
  other.primitives = plot.primitives ∧ other.shapes = plot.shapes ∧ other.box = plot.box

theorem SameObjects.refl (plot : Plot K) : plot.SameObjects plot := ⟨rfl, rfl, rfl⟩

theorem SameObjects.trans {plot other third : Plot K} (first : plot.SameObjects other)
    (second : other.SameObjects third) : plot.SameObjects third :=
  ⟨second.1.trans first.1, second.2.1.trans first.2.1, second.2.2.trans first.2.2⟩

variable [Scalar K]

def Extends (plot other : Plot K) : Prop :=
  plot.primitives <+: other.primitives ∧ plot.shapes <+: other.shapes ∧
    plot.box.Within other.box

theorem SameObjects.extends {plot other : Plot K} (same : plot.SameObjects other) :
    plot.Extends other := by
  rcases same with ⟨primitives, shapes, box⟩
  rw [Extends, primitives, shapes, box]
  exact ⟨List.prefix_rfl, List.prefix_rfl, plot.box.within_refl⟩

theorem Extends.trans {plot other third : Plot K} (first : plot.Extends other)
    (second : other.Extends third) : plot.Extends third :=
  ⟨first.1.trans second.1, first.2.1.trans second.2.1, first.2.2.trans second.2.2⟩

end Plot

namespace Canvas

/-! ## Sketches -/

abbrev Outline (K : Type) := List (Edge K)

namespace Outline

variable {K : Type} [PlaneScalar K]

def opened : Outline K → OpenContour K
  | [] => .empty
  | first :: rest =>
      ⟨first.start :: (first :: rest).flatMap Edge.points,
        .moveTo first.start :: (first :: rest).flatMap Edge.primitives,
        (Box.empty.cover first.start).coverAll ((first :: rest).flatMap Edge.extent)⟩

@[simp] theorem opened_nil : opened ([] : Outline K) = .empty := rfl

def vertices (outline : Outline K) : Contour K := openEnded outline.opened.points

def IsKept (outline : Outline K) : Bool := decide (3 ≤ outline.vertices.length)

def subpath (outline : Outline K) : List (Path.Primitive K) :=
    outline.opened.path ++ [.close]

theorem opened_append (outline : Outline K) (edge : Edge K) :
    opened (outline ++ [edge]) =
      ⟨(outline.opened.startAt edge.start).points ++ edge.points,
        (outline.opened.startAt edge.start).path ++ edge.primitives,
        (outline.opened.startAt edge.start).box.coverAll edge.extent⟩ := by
  cases outline with
  | nil => simp [opened, OpenContour.startAt, OpenContour.empty]
  | cons first rest => simp [opened, OpenContour.startAt, Box.coverAll]

end Outline

structure Sketch (K : Type) where
  closed : List (Outline K)
  current : Outline K

structure Collected (K : Type) where
  contours : List (Contour K)
  path : List (Path.Primitive K)
  box : Box K
  contour : OpenContour K

def Collected.nothing {K : Type} [PlaneScalar K] : Collected K := ⟨[], [], .empty, .empty⟩

namespace Sketch

variable {K : Type} [PlaneScalar K]

def empty : Sketch K := ⟨[], []⟩

def kept (sketch : Sketch K) : List (Outline K) :=
  (sketch.closed ++ [sketch.current]).filter Outline.IsKept

def shape (sketch : Sketch K) : Shape K := sketch.kept.map Outline.vertices

def path (sketch : Sketch K) : List (Path.Primitive K) :=
    sketch.kept.flatMap Outline.subpath

def joinBoxes (outlines : List (Outline K)) : Box K :=
  outlines.foldl (fun box outline => box.join outline.opened.box) .empty

def box (sketch : Sketch K) : Box K := joinBoxes sketch.kept

def draw (sketch : Sketch K) : Operation K → Sketch K
  | .drawEdge edge => { sketch with current := sketch.current ++ [edge] }
  | .closeContour => ⟨sketch.closed ++ [sketch.current], []⟩
  | .beginRegion | .endRegion | .discardRegion => empty
  | _ => sketch

omit [PlaneScalar K] in
/-- Operations that leave the sketch alone do so one after the other. -/
theorem foldl_draw_eq {sketch : Sketch K} {operations : List (Operation K)}
    (stays : ∀ operation ∈ operations, sketch.draw operation = sketch) :
    operations.foldl draw sketch = sketch := by
  induction operations with
  | nil => rfl
  | cons operation rest induction =>
      rw [List.foldl_cons, stays operation (by simp)]
      exact induction fun other member => stays other (by simp [member])

omit [PlaneScalar K] in
/-- The edges of a sketch are those that were drawn. -/
theorem drawEdge_mem {operations : List (Operation K)} {sketch : Sketch K}
    {outline : Outline K}
    (member : outline ∈ (operations.foldl draw sketch).closed ++
      [(operations.foldl draw sketch).current]) {edge : Edge K}
      (isEdge : edge ∈ outline) :
    .drawEdge edge ∈ operations ∨
      ∃ earlier ∈ sketch.closed ++ [sketch.current], edge ∈ earlier := by
  induction operations generalizing sketch with
  | nil => exact .inr ⟨outline, member, isEdge⟩
  | cons operation rest induction =>
      rcases induction member with later | ⟨earlier, isEarlier, own⟩
      · exact .inl (List.mem_cons_of_mem _ later)
      · have nothing : earlier ∉ empty.closed ++ [empty.current] := by
          intro isEmpty
          rcases List.mem_singleton.mp isEmpty with rfl
          cases own
        cases operation with
        | drawEdge added =>
            rcases List.mem_append.mp isEarlier with closed | current
            · exact .inr ⟨earlier, List.mem_append_left _ closed, own⟩
            · rcases List.mem_singleton.mp current with rfl
              rcases List.mem_append.mp own with before | isAdded
              · exact .inr ⟨sketch.current, by simp, before⟩
              · rcases List.mem_singleton.mp isAdded with rfl
                exact .inl List.mem_cons_self
        | closeContour =>
            rcases List.mem_append.mp isEarlier with closed | current
            · exact .inr ⟨earlier, closed, own⟩
            · rcases List.mem_singleton.mp current with rfl
              cases own
        | beginRegion => exact absurd isEarlier nothing
        | endRegion => exact absurd isEarlier nothing
        | discardRegion => exact absurd isEarlier nothing
        | breakChain => exact .inr ⟨earlier, isEarlier, own⟩
        | strokeLine => exact .inr ⟨earlier, isEarlier, own⟩
        | strokeArc => exact .inr ⟨earlier, isEarlier, own⟩
        | stamp => exact .inr ⟨earlier, isEarlier, own⟩

def collected (sketch : Sketch K) : Collected K :=
  let kept := sketch.closed.filter Outline.IsKept
  ⟨kept.map Outline.vertices, kept.flatMap Outline.subpath, joinBoxes kept,
    sketch.current.opened⟩

theorem collected_empty : (empty : Sketch K).collected = .nothing := rfl

end Sketch

variable {K : Type}

def collected (canvas : Canvas K) : Collected K :=
  ⟨canvas.regionContours, canvas.regionPath, canvas.regionBox, canvas.contour⟩

/-! ## Operations outside of regions -/

theorem collected_breakChain (canvas : Canvas K) :
    canvas.breakChain.collected = canvas.collected := by
  unfold breakChain
  split <;> rfl

theorem sameObjects_breakChain (canvas : Canvas K) :
    canvas.plot.SameObjects canvas.breakChain.plot := by
  unfold breakChain
  split <;> exact .refl _

variable [PlaneScalar K]

theorem extendChain_eq (canvas : Canvas K) (start : Point K) (points : List (Point K)) :
    ∃ chain, canvas.extendChain start points = { canvas with chain } ∨
      canvas.extendChain start points = { canvas.breakChain with chain } := by
  unfold extendChain
  cases canvas.chain.getLast? with
  | none => exact ⟨_, .inr rfl⟩
  | some last =>
      by_cases together : Together last start
      · exact ⟨canvas.chain ++ points, .inl (by simp [together])⟩
      · exact ⟨start :: points, .inr (by simp [together])⟩

theorem collected_extendChain (canvas : Canvas K) (start : Point K)
    (points : List (Point K)) :
    (canvas.extendChain start points).collected = canvas.collected := by
  rcases canvas.extendChain_eq start points with ⟨chain, continued | begun⟩
  · rw [continued]
    rfl
  · rw [begun]
    exact canvas.collected_breakChain

theorem sameObjects_extendChain (canvas : Canvas K) (start : Point K)
    (points : List (Point K)) :
    canvas.plot.SameObjects (canvas.extendChain start points).plot := by
  rcases canvas.extendChain_eq start points with ⟨chain, continued | begun⟩
  · rw [continued]
    exact .refl _
  · rw [begun]
    exact canvas.sameObjects_breakChain

theorem extends_addObject [Scalar.Ordered K] (canvas : Canvas K)
    (primitives : List (Path.Primitive K)) (shape : Shape K) (extent : List (Point K)) :
    canvas.plot.Extends (canvas.addObject primitives shape extent).plot :=
  ⟨List.prefix_append _ _, List.prefix_append _ _, Box.within_coverAll _ _⟩

theorem collected_strokeLine (canvas : Canvas K) (start finish : Point K) (width : K) :
    (canvas.strokeLine start finish width).collected = canvas.collected := by
  unfold strokeLine
  split
  · rfl
  · exact canvas.collected_extendChain _ _

theorem extends_strokeLine [Scalar.Ordered K] (canvas : Canvas K) (start finish : Point K)
    (width : K) : canvas.plot.Extends (canvas.strokeLine start finish width).plot := by
  unfold strokeLine
  split
  · exact (Plot.SameObjects.refl _).extends
  · exact (canvas.sameObjects_extendChain _ _).extends.trans (extends_addObject _ _ _ _)

theorem extends_strokeArc [Scalar.Ordered K] (canvas : Canvas K)
    (start : Point K) (arc : Arc K)
    (width : K) : canvas.plot.Extends (canvas.strokeArc start arc width).plot :=
  (canvas.sameObjects_extendChain _ _).extends.trans (extends_addObject _ _ _ _)

theorem collected_stampOne (canvas : Canvas K) (primitive : Path.Primitive K) :
    (canvas.stampOne primitive).collected = canvas.collected := by
  unfold stampOne
  split
  · split <;> rfl
  · split <;> rfl
  · rfl

theorem extends_stampOne [Scalar.Ordered K] (canvas : Canvas K)
    (primitive : Path.Primitive K) :
    canvas.plot.Extends (canvas.stampOne primitive).plot := by
  unfold stampOne
  split
  · split
    · exact (Plot.SameObjects.refl _).extends
    · exact extends_addObject _ _ _ _
  · split
    · exact (Plot.SameObjects.refl _).extends
    · exact extends_addObject _ _ _ _
  · exact (Plot.SameObjects.refl _).extends

theorem collected_stamp (canvas : Canvas K) (primitives : List (Path.Primitive K)) :
    (canvas.stamp primitives).collected = canvas.collected := by
  have stamped : ∀ canvas : Canvas K,
      (primitives.foldl stampOne canvas).collected = canvas.collected := by
    induction primitives with
    | nil => exact fun _ => rfl
    | cons first rest induction =>
        exact fun canvas => (induction _).trans (canvas.collected_stampOne first)
  exact (stamped canvas.breakChain).trans canvas.collected_breakChain

theorem extends_stamp [Scalar.Ordered K] (canvas : Canvas K)
    (primitives : List (Path.Primitive K)) :
    canvas.plot.Extends (canvas.stamp primitives).plot := by
  have stamped : ∀ canvas : Canvas K,
      canvas.plot.Extends (primitives.foldl stampOne canvas).plot := by
    induction primitives with
    | nil => exact fun _ => (Plot.SameObjects.refl _).extends
    | cons first rest induction =>
        exact fun canvas => (canvas.extends_stampOne first).trans (induction _)
  exact canvas.sameObjects_breakChain.extends.trans (stamped canvas.breakChain)

/-! ## Operations of regions -/

theorem sameObjects_closeContour (canvas : Canvas K) :
    canvas.plot.SameObjects canvas.closeContour.plot := by
  simp only [closeContour]
  split <;> exact .refl _

/-- Closing a contour moves the open outline of a sketch to the closed ones. -/
theorem collected_closeContour {canvas : Canvas K} {sketch : Sketch K}
    (holds : canvas.collected = sketch.collected) :
    canvas.closeContour.collected = (sketch.draw .closeContour).collected := by
  simp only [collected, Sketch.collected, Collected.mk.injEq] at holds
  rcases holds with ⟨contours, path, box, contour⟩
  simp only [closeContour, contours, path, box, contour]
  by_cases short : (openEnded sketch.current.opened.points).length < 3
  · have dropped : Outline.IsKept sketch.current = false :=
      decide_eq_false (not_le.mpr short)
    simp [short, collected, Sketch.collected, Sketch.draw, List.filter_append, dropped]
  · have held : Outline.IsKept sketch.current = true :=
      decide_eq_true (not_lt.mp short)
    simp [short, collected, Sketch.collected, Sketch.draw, List.filter_append, held,
      Outline.vertices, Outline.subpath, Sketch.joinBoxes]

/-- Whether any contour was kept decides whether the end of a region adds
anything at all. -/
theorem objects_endRegion {canvas : Canvas K} {sketch : Sketch K}
    (holds : canvas.collected = sketch.collected) :
    canvas.endRegion.collected = .nothing ∧
      (if sketch.shape.isEmpty then canvas.plot.SameObjects canvas.endRegion.plot
        else
          canvas.endRegion.plot.primitives = canvas.plot.primitives ++ sketch.path ∧
          canvas.endRegion.plot.shapes = canvas.plot.shapes ++ [sketch.shape] ∧
          canvas.endRegion.plot.box = canvas.plot.box.join sketch.box) := by
  have closed := collected_closeContour holds
  rcases canvas.sameObjects_closeContour with ⟨samePrimitives, sameShapes, sameBox⟩
  simp only [collected, Sketch.draw, Sketch.collected, Collected.mk.injEq] at closed
  rcases closed with ⟨contours, path, box, contour⟩
  have shape : canvas.closeContour.regionContours = sketch.shape := contours
  by_cases nothing : sketch.shape = []
  · have kept : (sketch.closed ++ [sketch.current]).filter Outline.IsKept = [] :=
      List.map_eq_nil_iff.mp nothing
    have unchanged : canvas.endRegion = canvas.closeContour := by
      simp [endRegion, shape, nothing]
    rw [kept] at path box
    rw [unchanged, nothing]
    refine ⟨?_, samePrimitives, sameShapes, sameBox⟩
    simp only [collected, shape, nothing, path, box, contour]
    rfl
  · have plotted : canvas.endRegion =
        { canvas.closeContour with
          regionContours := []
          regionPath := []
          regionBox := .empty
          plot.shapes :=
            canvas.closeContour.plot.shapes ++ [canvas.closeContour.regionContours]
          plot.primitives :=
            canvas.closeContour.plot.primitives ++ canvas.closeContour.regionPath
          plot.box :=
            canvas.closeContour.plot.box.join canvas.closeContour.regionBox } := by
      simp [endRegion, shape, nothing]
    have some : sketch.shape.isEmpty = false := by simpa using nothing
    rw [plotted, some]
    refine ⟨?_, ?_, ?_, ?_⟩
    · simp only [collected, contour]
      rfl
    · rw [samePrimitives, path]
      rfl
    · rw [sameShapes, shape]
    · rw [sameBox, box]
      rfl

theorem extends_endRegion [Scalar.Ordered K] (canvas : Canvas K) :
    canvas.plot.Extends canvas.endRegion.plot := by
  have closed := canvas.sameObjects_closeContour.extends
  simp only [endRegion]
  split
  · exact closed
  · exact closed.trans ⟨List.prefix_append _ _, List.prefix_append _ _,
      Box.within_join _ _⟩

theorem collected_drawEdge {canvas : Canvas K} {sketch : Sketch K}
    (holds : canvas.collected = sketch.collected) (edge : Edge K) :
    (canvas.drawEdge edge).collected = (sketch.draw (.drawEdge edge)).collected := by
  simp only [collected, Sketch.collected, Collected.mk.injEq] at holds
  rcases holds with ⟨contours, path, box, contour⟩
  simp only [drawEdge, regionEdge, collected, Sketch.collected, Sketch.draw, contours,
    path, box, contour, Outline.opened_append]

/-! ## Every operation -/

def Operation.AddsObjects : Operation K → Prop
  | .strokeLine .. | .strokeArc .. | .stamp _ | .endRegion => True
  | _ => False

theorem collected_carryOut {canvas : Canvas K} {sketch : Sketch K}
    (holds : canvas.collected = sketch.collected) (operation : Operation K) :
    (canvas.carryOut operation).collected = (sketch.draw operation).collected := by
  cases operation with
  | breakChain => exact canvas.collected_breakChain.trans holds
  | strokeLine start finish width => exact (canvas.collected_strokeLine _ _ _).trans holds
  | strokeArc start arc width => exact (canvas.collected_extendChain _ _).trans holds
  | stamp primitives => exact (canvas.collected_stamp primitives).trans holds
  | beginRegion => rfl
  | drawEdge edge => exact collected_drawEdge holds edge
  | closeContour => exact collected_closeContour holds
  | endRegion => exact (objects_endRegion holds).1
  | discardRegion => rfl

theorem sameObjects_carryOut (canvas : Canvas K) {operation : Operation K}
    (quiet : ¬operation.AddsObjects) :
    canvas.plot.SameObjects (canvas.carryOut operation).plot := by
  cases operation with
  | breakChain => exact canvas.sameObjects_breakChain
  | strokeLine start finish width => exact absurd trivial quiet
  | strokeArc start arc width => exact absurd trivial quiet
  | stamp primitives => exact absurd trivial quiet
  | beginRegion => exact canvas.sameObjects_breakChain
  | drawEdge edge => exact .refl _
  | closeContour => exact canvas.sameObjects_closeContour
  | endRegion => exact absurd trivial quiet
  | discardRegion => exact .refl _

theorem extends_carryOut [Scalar.Ordered K] (canvas : Canvas K)
    (operation : Operation K) :
    canvas.plot.Extends (canvas.carryOut operation).plot := by
  cases operation with
  | breakChain => exact canvas.sameObjects_breakChain.extends
  | strokeLine start finish width => exact canvas.extends_strokeLine _ _ _
  | strokeArc start arc width => exact canvas.extends_strokeArc _ _ _
  | stamp primitives => exact canvas.extends_stamp primitives
  | beginRegion => exact canvas.sameObjects_breakChain.extends
  | drawEdge edge => exact (Plot.SameObjects.refl _).extends
  | closeContour => exact canvas.sameObjects_closeContour.extends
  | endRegion => exact canvas.extends_endRegion
  | discardRegion => exact (Plot.SameObjects.refl _).extends

theorem collected_foldl {canvas : Canvas K} {sketch : Sketch K}
    (holds : canvas.collected = sketch.collected) (operations : List (Operation K)) :
    (operations.foldl carryOut canvas).collected =
      (operations.foldl Sketch.draw sketch).collected := by
  induction operations generalizing canvas sketch with
  | nil => exact holds
  | cons operation rest induction => exact induction (collected_carryOut holds operation)

theorem sameObjects_foldl (canvas : Canvas K) {operations : List (Operation K)}
    (quiet : ∀ operation ∈ operations, ¬operation.AddsObjects) :
    canvas.plot.SameObjects (operations.foldl carryOut canvas).plot := by
  induction operations generalizing canvas with
  | nil => exact .refl _
  | cons operation rest induction =>
      have first := canvas.sameObjects_carryOut (quiet operation (by simp))
      exact first.trans (induction _ fun other member => quiet other (by simp [member]))

theorem extends_foldl [Scalar.Ordered K] (canvas : Canvas K)
    (operations : List (Operation K)) :
    canvas.plot.Extends (operations.foldl carryOut canvas).plot := by
  induction operations generalizing canvas with
  | nil => exact (Plot.SameObjects.refl _).extends
  | cons operation rest induction =>
      exact (canvas.extends_carryOut operation).trans (induction _)

end Canvas

namespace Machine

open Canvas (Operation Sketch)

variable {K : Type} [PlaneScalar K]

/-! ## Commands -/

def PlotsObject (machine : Machine K) (command : Command K) : Prop :=
  machine.modes.ended = false ∧ machine.modes.polarity = .dark ∧
    match command with
    | .operation _ action =>
        machine.modes.regionOpen = false ∧ action.getD machine.modes.action ≠ .move
    | .endRegion => machine.modes.regionOpen = true
    | _ => False

def CompletesRegion (machine : Machine K) (command : Command K) : Prop :=
  machine.PlotsObject command ∧ command = .endRegion

theorem plotsObject_of_issues {machine : Machine K} {command : Command K}
    {operation : Operation K} (running : machine.modes.ended = false)
    (issues : machine.Issues command operation) (adds : operation.AddsObjects) :
    machine.PlotsObject command := by
  cases issues with
  | strokeLine closed dark taken straight =>
      exact ⟨running, dark, closed, by simp [taken]⟩
  | strokeArc closed dark taken resolved => exact ⟨running, dark, closed, by simp [taken]⟩
  | stamp closed dark taken => exact ⟨running, dark, closed, by simp [taken]⟩
  | endRegion opened dark => exact ⟨running, dark, opened⟩
  | _ => exact adds.elim

theorem sameObjects_step {machine : Machine K} {command : Command K}
    (quiet : ¬machine.PlotsObject command) :
    machine.canvas.plot.SameObjects (machine.step command).value.canvas.plot := by
  rw [canvas_step]
  refine machine.canvas.sameObjects_foldl fun operation member adds => quiet ?_
  rcases issues_of_mem_operations member with ⟨running, issues⟩
  exact plotsObject_of_issues running issues adds

theorem extends_step [Scalar.Ordered K] (machine : Machine K) (command : Command K) :
    machine.canvas.plot.Extends (machine.step command).value.canvas.plot := by
  rw [canvas_step]
  exact machine.canvas.extends_foldl _

def Unfinished (machine : Machine K) : List (Command K) → Prop
  | [] => True
  | command :: rest =>
      machine.modes.regionOpen = true ∧ ¬machine.CompletesRegion command ∧
        (machine.step command).value.Unfinished rest

theorem sameObjects_run_of_unfinished {machine : Machine K} {commands : List (Command K)}
    (unfinished : machine.Unfinished commands) :
    machine.canvas.plot.SameObjects (machine.run commands).value.canvas.plot := by
  induction commands generalizing machine with
  | nil => exact .refl _
  | cons command rest induction =>
      rcases unfinished with ⟨opened, incomplete, later⟩
      have quiet : ¬machine.PlotsObject command := by
        intro plots
        cases command with
        | operation fields action =>
            have closed : machine.modes.regionOpen = false := plots.2.2.1
            simp [opened] at closed
        | endRegion => exact incomplete ⟨plots, rfl⟩
        | _ => exact plots.2.2
      exact (sameObjects_step quiet).trans (induction later)

omit [PlaneScalar K] in
theorem sameObjects_finish (machine : Machine K) :
    machine.canvas.plot.SameObjects machine.finish.value := by
  unfold finish
  split
  · exact machine.canvas.discardRegion.sameObjects_breakChain
  · exact machine.canvas.sameObjects_breakChain

/-! ## The region of a run -/

def sketch (commands : List (Command K)) : Sketch K :=
  (start.trace commands).foldl Sketch.draw .empty

theorem sketch_append_singleton (commands : List (Command K)) (command : Command K) :
    sketch (commands ++ [command]) =
      ((start.run commands).value.operations command).foldl Sketch.draw
        (sketch commands) := by
  rw [sketch, trace_append, List.foldl_append]
  simp [trace, sketch]

theorem collected_run (commands : List (Command K)) :
    (start.run commands).value.canvas.collected = (sketch commands).collected := by
  have begun : (start : Machine K).canvas.collected = Sketch.empty.collected := rfl
  rw [canvas_run]
  exact Canvas.collected_foldl begun _

/-- The operations outside of a region leave an empty sketch empty. -/
theorem draw_empty_of_issues {machine : Machine K} {command : Command K}
    {operation : Operation K} (closed : machine.modes.regionOpen = false)
    (issues : machine.Issues command operation) :
    Sketch.empty.draw operation = .empty := by
  cases issues with
  | closeContour opened taken => simp [closed] at opened
  | line opened taken straight => simp [closed] at opened
  | arc opened taken resolved => simp [closed] at opened
  | _ => rfl

theorem eq_endRegion_of_regionOpen {machine : Machine K} {command : Command K}
    (opened : machine.modes.regionOpen = true)
    (closed : (machine.step command).value.modes.regionOpen = false) :
    machine.modes.ended = false ∧ command = .endRegion := by
  rw [regionOpen_step] at closed
  split at closed
  · simp [opened] at closed
  · rename_i running
    cases command with
    | endRegion => exact ⟨eq_false_of_ne_true running, rfl⟩
    | _ => simp [opened] at closed

theorem sketch_eq_empty (commands : List (Command K))
    (closed : (start.run commands).value.modes.regionOpen = false) :
    sketch commands = .empty := by
  induction commands using List.reverseRecOn with
  | nil => rfl
  | append_singleton commands command induction =>
      rw [run_append] at closed
      rw [sketch_append_singleton]
      cases before : (start.run commands).value.modes.regionOpen with
      | true =>
          rcases eq_endRegion_of_regionOpen before closed with ⟨running, rfl⟩
          simp only [operations, running, before]
          cases (start.run commands).value.modes.polarity <;> rfl
      | false =>
          rw [induction before]
          apply Sketch.foldl_draw_eq
          intro operation member
          exact draw_empty_of_issues before (issues_of_mem_operations member).2

theorem operations_endRegion {machine : Machine K}
    (completes : machine.CompletesRegion .endRegion) :
    machine.operations .endRegion = [.endRegion] := by
  rcases completes with ⟨⟨running, dark, opened⟩, -⟩
  have isOpen : machine.modes.regionOpen = true := opened
  simp [operations, running, dark, isOpen]

/-! ## All or nothing -/

/-- A command extends the plot or leaves it alone. Objects are added by dark draws
and flashes outside of regions and by the dark end of a region only; the latter
adds one shape with the contours on the sketch and their subpaths, if there are
any. Outside of regions all buffers are empty, and a region that is not finished
leaves nothing. -/
theorem objects_step [Scalar.Ordered K] (commands : List (Command K))
    (command : Command K) :
    let machine := (start.run commands).value
    let plot := machine.canvas.plot
    let after := (machine.step command).value.canvas.plot
    plot.Extends after ∧
    (¬machine.PlotsObject command → plot.SameObjects after) ∧
    (machine.CompletesRegion command →
      if (sketch commands).shape.isEmpty then plot.SameObjects after
      else
        after.primitives = plot.primitives ++ (sketch commands).path ∧
        after.shapes = plot.shapes ++ [(sketch commands).shape] ∧
        after.box = plot.box.join (sketch commands).box) ∧
    (machine.modes.regionOpen = false → machine.canvas.collected = .nothing) ∧
    (machine.modes.ended = false → sketch (commands ++ [.beginRegion]) = .empty) ∧
    (∀ more, machine.Unfinished more →
      plot.SameObjects (machine.run more).value.canvas.plot) ∧
    plot.SameObjects machine.finish.value := by
  intro machine plot after
  refine ⟨machine.extends_step command, sameObjects_step, ?_, ?_, ?_, ?_,
    machine.sameObjects_finish⟩
  · intro completes
    cases completes.2
    have ended := (Canvas.objects_endRegion (collected_run commands)).2
    have result : after = machine.canvas.endRegion.plot := by
      simp only [after, canvas_step, operations_endRegion completes]
      rfl
    rw [result]
    exact ended
  · intro closed
    rw [collected_run, sketch_eq_empty commands closed, Sketch.collected_empty]
  · intro running
    rw [sketch_append_singleton]
    simp only [operations, machine, running] at running ⊢
    rfl
  · intro more unfinished
    exact sameObjects_run_of_unfinished unfinished

def toward (x y : Float) (action : Action) : Command Float :=
  .operation ⟨some (.decimal x), some (.decimal y), none, none⟩ (some action)

def triangle : List (Command Float) :=
  [.beginRegion, toward 0 0 .move, toward 4 0 .draw, toward 0 3 .draw, toward 0 0 .draw]

theorem objects_step_triangle :
    let machine := (start.run triangle).value
    machine.CompletesRegion .endRegion ∧ machine.canvas.plot.shapes = [] ∧
      (machine.step .endRegion).value.canvas.plot.shapes =
        [[[⟨0, 0⟩, ⟨4, 0⟩, ⟨0, 3⟩]]] := by
  intro machine
  have completes : machine.CompletesRegion .endRegion := ⟨⟨rfl, rfl, rfl⟩, rfl⟩
  have drawn : (sketch triangle).shape = [[⟨0, 0⟩, ⟨4, 0⟩, ⟨0, 3⟩]] := by decide +kernel
  have blank : machine.canvas.plot.shapes = [] := rfl
  rcases objects_step triangle .endRegion with ⟨-, -, added, -⟩
  have shapes := added completes
  rw [drawn] at shapes
  refine ⟨completes, blank, ?_⟩
  exact shapes.2.1.trans (by rw [blank]; rfl)

end Machine

end Photoplot
