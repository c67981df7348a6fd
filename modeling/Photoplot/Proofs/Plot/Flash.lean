import Photoplot.Proofs.Plot.Pad
import Photoplot.Proofs.Plot.Width

/-! # Single flashes

Where a flash of a standard tool is all that a layer plots, the layer is as large as the
tool. The size is the one that the tool was defined with, in the units that were in force
at its definition. -/

namespace Photoplot

/-! ## Operations that leave nothing -/

namespace Canvas

variable {K : Type} [PlaneScalar K] {canvas : Canvas K} {sketch : Sketch K}

theorem objectsOf_append (sketch : Sketch K) (first second : List (Operation K)) :
    objectsOf sketch (first ++ second) =
      objectsOf sketch first ++ objectsOf (first.foldl Sketch.draw sketch) second := by
  induction first generalizing sketch with
  | nil => rfl
  | cons operation rest induction =>
      rw [List.cons_append, objectsOf, objectsOf, induction, List.append_assoc,
        List.foldl_cons]

theorem stampOne_of_stamped_eq_none (canvas : Canvas K) {primitive : Path.Primitive K}
    (nothing : PlottedObject.stamped? primitive = none) :
    canvas.stampOne primitive = canvas := by
  cases primitive with
  | circle center radius =>
      simp only [PlottedObject.stamped?, ite_eq_left_iff, reduceCtorEq, imp_false,
        not_not]
        at nothing
      exact if_pos nothing
  | polygon contour =>
      simp only [PlottedObject.stamped?, ite_eq_left_iff, reduceCtorEq, imp_false,
        not_not]
        at nothing
      exact if_pos nothing
  | _ => rfl

theorem stamp_of_stamped_eq_none (canvas : Canvas K)
    {primitives : List (Path.Primitive K)}
    (nothing : ∀ primitive ∈ primitives, PlottedObject.stamped? primitive = none) :
    canvas.stamp primitives = canvas.breakChain := by
  unfold stamp
  generalize canvas.breakChain = current
  induction primitives with
  | nil => rfl
  | cons first rest induction =>
      rw [List.forall_mem_cons] at nothing
      rw [List.foldl_cons, stampOne_of_stamped_eq_none _ nothing.1]
      exact induction nothing.2

/-- An operation that leaves no object keeps the box as well. -/
theorem sameObjects_of_objects_eq_nil (collects : canvas.collected = sketch.collected)
    {operation : Operation K} (nothing : operation.objects sketch = []) :
    canvas.plot.SameObjects (canvas.carryOut operation).plot := by
  cases operation with
  | strokeLine start finish width =>
      have short : Contour.stroke? start finish width = none := by
        simpa [Operation.objects] using nothing
      rw [carryOut, strokeLine, short]
      exact .refl _
  | strokeArc start arc width => cases nothing
  | stamp primitives =>
      rw [carryOut, stamp_of_stamped_eq_none _ (List.filterMap_eq_nil_iff.mp nothing)]
      exact canvas.sameObjects_breakChain
  | endRegion =>
      have ended := (objects_endRegion collects).2
      have none : sketch.shape.isEmpty = true := by
        by_contra some
        simp [Operation.objects, some] at nothing
      rw [if_pos none] at ended
      exact ended
  | _ => exact canvas.sameObjects_carryOut id

theorem sameObjects_of_objectsOf_eq_nil (collects : canvas.collected = sketch.collected)
    {operations : List (Operation K)} (nothing : objectsOf sketch operations = []) :
    canvas.plot.SameObjects (operations.foldl carryOut canvas).plot := by
  induction operations generalizing canvas sketch with
  | nil => exact .refl _
  | cons operation rest induction =>
      rcases List.append_eq_nil_iff.mp nothing with ⟨own, later⟩
      exact (sameObjects_of_objects_eq_nil collects own).trans
        (induction (collected_carryOut collects operation) later)

end Canvas

/-! ## What is stamped -/

namespace PlottedObject

variable {primitive : Path.Primitive ℝ} {object : PlottedObject ℝ}

theorem encloses_of_stamped (stamped : stamped? primitive = some object) :
    Encloses primitive.extent object.primitives object.shape := by
  rcases stamped_cases stamped with
      ⟨center, radius, wide, rfl, rfl⟩ | ⟨contour, -, rfl, rfl⟩
  · rw [Exact.zero_eq, not_le] at wide
    exact encloses_circle wide.le
  · exact encloses_polygon contour

theorem stampOne_of_stamped (stamped : stamped? primitive = some object)
    (canvas : Canvas ℝ) :
    canvas.stampOne primitive =
      canvas.addObject object.primitives object.shape primitive.extent := by
  rcases stamped_cases stamped with
      ⟨center, radius, wide, rfl, rfl⟩ | ⟨contour, enough, rfl, rfl⟩
  · exact if_neg wide
  · exact if_neg (not_lt.mpr enough)

end PlottedObject

open Canvas in
/-- Where one flashed figure is all that operations leave, the plot has its box. -/
theorem Canvas.box_foldl_of_single {before after : List (Operation ℝ)}
    {primitive : Path.Primitive ℝ} {object : PlottedObject ℝ}
    (stamped : PlottedObject.stamped? primitive = some object)
    (single : (objectsOf .empty (before ++ .stamp [primitive] :: after)).length = 1) :
    let plot := ((before ++ .stamp [primitive] :: after).foldl carryOut empty).plot
    plot.box = Box.empty.coverAll primitive.extent ∧ plot.shapes = [object.shape] := by
  intro plot
  have own
      (sketch : Sketch ℝ) : (Operation.stamp [primitive]).objects sketch = [object] := by
    simp [Operation.objects, stamped]
  rw [objectsOf_append, objectsOf, own] at single
  simp only [List.length_append, List.length_cons, List.length_nil] at single
  -- The stamp leaves the only object, so the plot is blank before it and stays the same
  -- behind it.
  have noneBefore : objectsOf .empty before = [] := List.length_eq_zero_iff.mp (by omega)
  have noneAfter :
      objectsOf ((before.foldl Sketch.draw .empty).draw (.stamp [primitive])) after =
      [] := List.length_eq_zero_iff.mp (by omega)
  have begun : (empty : Canvas ℝ).collected = Sketch.empty.collected := rfl
  have collected := collected_foldl begun before
  have blank := sameObjects_of_objectsOf_eq_nil begun noneBefore
  have kept := sameObjects_of_objectsOf_eq_nil
    (collected_carryOut collected (.stamp [primitive])) noneAfter
  have isPlot : plot = (after.foldl carryOut
      ((before.foldl carryOut empty).carryOut (.stamp [primitive]))).plot := by
    simp only [plot, List.foldl_append, List.foldl_cons]
  rw [← isPlot] at kept
  have stamping := blank.trans (before.foldl carryOut empty).sameObjects_breakChain
  have added : ((before.foldl carryOut empty).carryOut (.stamp [primitive])) =
      (before.foldl carryOut empty).breakChain.addObject object.primitives object.shape
        primitive.extent := PlottedObject.stampOne_of_stamped stamped _
  rw [added] at kept
  constructor
  · rw [kept.2.2, addObject, stamping.2.2]
    rfl
  · rw [kept.2.1, addObject, stamping.2.1]
    rfl

/-! ## Standard pads -/

namespace ApertureShape

def extent? {K : Type} : ApertureShape K → Option (K × K)
  | .circle diameter => some (diameter, diameter)
  | .rectangle width height => some (width, height)
  | .obround width height => some (width, height)
  | _ => none

theorem extent?_scaled {K : Type} [Scalar K] (scale : K) (shape : ApertureShape K) :
    (shape.scaled scale).extent? =
      shape.extent?.map fun extent => (extent.1 * scale, extent.2 * scale) := by
  cases shape <;> rfl

end ApertureShape

structure Path.Primitive.Stamps (primitive : Path.Primitive ℝ) (contour : Contour ℝ)
    (box : Box ℝ) : Prop where
  fills : primitive.Fills box
  stamped : PlottedObject.stamped? primitive = some ⟨[primitive], [contour]⟩

theorem Path.Primitive.Stamps.held {primitive : Path.Primitive ℝ} {contour : Contour ℝ}
    {box : Box ℝ} (stamps : primitive.Stamps contour box) :
    ∀ vertex ∈ contour, box.Holds vertex :=
  (PlottedObject.encloses_of_stamped stamps.stamped box stamps.fills.held).2
    contour (by simp)

theorem Path.Primitive.stamps_polygon {contour : Contour ℝ} {box : Box ℝ}
    (fills : (polygon contour).Fills box) (enough : 3 ≤ contour.length) :
    (polygon contour).Stamps contour box where
  fills := fills
  stamped := if_neg (not_lt.mpr enough)

theorem Path.Primitive.stamps_circle {center : Point ℝ} {diameter : ℝ}
    (positive : 0 < diameter) :
    (circle center (diameter / 2.0)).Stamps (Contour.circle center (diameter / 2.0))
      (.around center diameter diameter) where
  fills := fills_circle positive.le
  stamped := by
    have wide : ¬diameter / 2.0 ≤ 0.0 := by
      rw [Exact.zero_eq, not_le]
      positivity
    exact if_neg wide

namespace Machine

open Path.Primitive

theorem exists_stamps_pad (machine : Machine ℝ) {aperture : Aperture ℝ} {width height : ℝ}
    (extent : aperture.shape.extent? = some (width, height)) (wide : 0 < width)
    (high : 0 < height) (center : Point ℝ) :
    ∃ primitive contour, (machine.pad aperture center).value = [primitive] ∧
      primitive.Stamps contour (.around center width height) ∧
      (aperture.shape = .obround width height →
        contour.length = 34 ∧ (Box.around center width height).IsTouched contour) := by
  unfold pad
  cases isShape : aperture.shape with
  | circle diameter =>
      rw [isShape] at extent
      cases extent
      exact ⟨_, _, rfl, stamps_circle wide, fun isObround => by cases isObround⟩
  | rectangle across up =>
      rw [isShape] at extent
      cases extent
      have enough : 3 ≤ (Contour.rectangle center width height).length := by
        simp [Contour.rectangle]
      have stamps := stamps_polygon (fills_rectangle wide.le high.le) enough
      exact ⟨_, _, rfl, stamps, fun isObround => by cases isObround⟩
  | obround across up =>
      rw [isShape] at extent
      cases extent
      have fills := @fills_obround center width height wide.le high.le
      have count := Contour.length_obround center width height
      exact ⟨_, _, rfl, stamps_polygon fills (by omega), fun _ => ⟨count, fills.touched⟩⟩
  | polygon diameter vertices rotation =>
      rw [isShape] at extent
      cases extent
  | custom name parameters =>
      rw [isShape] at extent
      cases extent

/-! ## Layers of one flash -/

section Flashes

variable {K : Type} [PlaneScalar K]

structure Flashes (machine : Machine K) (code : ℕ) (action : Option Action) : Prop where
  running : machine.modes.ended = false
  closed : machine.modes.regionOpen = false
  dark : machine.modes.polarity = .dark
  selected : machine.modes.aperture = some code
  taken : action.getD machine.modes.action = .flash

variable {machine : Machine K} {code : ℕ} {fields : CoordinateFields K}
    {action : Option Action}

theorem Flashes.operations (flashes : machine.Flashes code action) {aperture : Aperture K}
    (found : machine.apertures.find? code = some aperture) :
    let moved := machine.moved fields action
    machine.operations (.operation fields action) =
      [.stamp (moved.pad aperture moved.modes.position).value] := by
  intro moved
  have closed : moved.modes.regionOpen = false := flashes.closed
  have dark : moved.modes.polarity = .dark := flashes.dark
  have selected : moved.modes.aperture = some code := flashes.selected
  have known : moved.apertures.find? code = some aperture := found
  simp only [Machine.operations, flashes.running, flashes.taken, flashOperations, closed,
    dark, selectedPad, selected, known, reduceCtorEq, Bool.false_eq_true, if_false,
    moved]

theorem running_of_append {first rest : List (Command K)}
    (running : (machine.run (first ++ rest)).value.modes.ended = false) :
    (machine.run first).value.modes.ended = false := by
  by_contra ended
  rw [run_append, run_of_ended (by simpa using ended)] at running
  exact ended running

/-- A tool stays what it is until it is defined anew. -/
theorem find?_run_of_kept {commands : List (Command K)}
    (kept : ∀ command ∈ commands, command.definition? code = none) :
    (machine.run commands).value.apertures.find? code = machine.apertures.find? code := by
  induction commands generalizing machine with
  | nil => rfl
  | cons command rest induction =>
      rw [List.forall_mem_cons] at kept
      rw [run_cons, induction kept.2, find?_step, kept.1]
      split <;> rfl

theorem find?_run_of_defined {first between : List (Command K)} {shape : ApertureShape K}
    (running : (machine.run first).value.modes.ended = false)
    (kept : ∀ command ∈ between, command.definition? code = none) :
    let scale : K := (machine.run first).value.modes.decoder.units.scale
    (machine.run (first ++ .defineAperture code shape :: between)).value.apertures.find?
      code =
      some ⟨shape.scaled scale, scale⟩ := by
  intro scale
  rw [run_append, run_cons, find?_run_of_kept kept, find?_step, running,
    Command.definition?, if_pos rfl]
  rfl

end Flashes

/-- A layer whose only object is a flash of a round pad, a rectangle or an obround is
exactly as large as the tool, about the point of the flash. The flash adds one contour,
which lies in that box; the one of an obround has 34 vertices and reaches each side. -/
theorem box_eq_around_of_flash {first between before after : List (Command ℝ)} {code : ℕ}
    {shape : ApertureShape ℝ} {width height : ℝ} {fields : CoordinateFields ℝ}
    {action : Option Action} (extent : shape.extent? = some (width, height))
    (wide : 0 < width) (high : 0 < height)
    (defined : before = first ++ .defineAperture code shape :: between)
    (kept : ∀ command ∈ between, command.definition? code = none)
    (flashes : (start.run before).value.Flashes code action)
    (single :
      (plot (before ++ .operation fields action :: after)).value.shapes.length = 1) :
    let layer := (plot (before ++ .operation fields action :: after)).value
    let center := ((start.run before).value.moved fields action).modes.position
    let scale : ℝ := (start.run first).value.modes.decoder.units.scale
    layer.box = .around center (width * scale) (height * scale) ∧
      ∃ contour, layer.shapes = [[contour]] ∧
      (∀ vertex ∈ contour, layer.box.Holds vertex) ∧
        (shape = .obround width height →
          contour.length = 34 ∧ layer.box.IsTouched contour) := by
  intro layer center scale
  let machine := (start.run before).value
  have positive : 0 < scale := by
    simp only [scale]
    cases (start.run first).value.modes.decoder.units with
    | millimeters => norm_num [Units.scale]
    | inches => norm_num [Units.scale]
  have found : machine.apertures.find? code = some ⟨shape.scaled scale, scale⟩ := by
    have running := flashes.running
    rw [defined] at running
    simp only [machine, defined]
    exact find?_run_of_defined (running_of_append running) kept
  have extentScaled : (shape.scaled scale).extent? =
      some (width * scale, height * scale) := by
    rw [ApertureShape.extent?_scaled, extent]
    rfl
  obtain ⟨primitive, contour, isPad, stamps, obround⟩ :=
    @exists_stamps_pad (machine.moved fields action)
      ⟨shape.scaled scale, scale⟩ _ _ extentScaled
      (mul_pos wide positive) (mul_pos high positive) center
  have isTrace : start.trace (before ++ .operation fields action :: after) =
      start.trace before ++ .stamp [primitive] ::
        (machine.step (.operation fields action)).value.trace after := by
    rw [trace_append, trace, flashes.operations found, isPad]
    rfl
  have leaves := hasObjects_plot (before ++ .operation fields action :: after)
  have same :=
      (start.run (before ++ .operation fields action :: after)).value.sameObjects_finish
  rw [leaves.shapes, List.length_map, objects, isTrace] at single
  rw [canvas_run, isTrace] at same
  obtain ⟨box, shapes⟩ := Canvas.box_foldl_of_single stamps.stamped single
  have covered := Box.coverAll_eq_of_touched stamps.fills.held stamps.fills.touched
  have isBox : layer.box = .around center (width * scale) (height * scale) :=
    same.2.2.trans (box.trans covered)
  rw [isBox]
  refine ⟨rfl, contour, same.2.1.trans shapes, stamps.held, fun isObround => obround ?_⟩
  rw [isObround]
  rfl

/-- An obround that is higher than wide, in inches, three inches to the right and four
up. -/
theorem box_eq_around_of_flash_obround :
    let before : List (Command ℝ) :=
      [.units .inches, .defineAperture 10 (.obround 1 2), .select 10]
    let flash : Command ℝ :=
      .operation ⟨some (.decimal 3), some (.decimal 4), none, none⟩ (some .flash)
    (start.run before).value.Flashes 10 (some .flash) ∧
      (plot (before ++ [flash])).value.shapes.length = 1 ∧
      (plot (before ++ [flash])).value.box =
        .around ⟨3 * 25.4, 4 * 25.4⟩ (1 * 25.4) (2 * 25.4) := by
  intro before flash
  have flashes : (start.run before).value.Flashes 10 (some .flash) :=
    ⟨rfl, rfl, rfl, rfl, rfl⟩
  have single : (plot (before ++ [flash])).value.shapes.length = 1 := by
    have isTrace : ∃ center width height, start.trace (before ++ [flash]) =
        [.stamp [.polygon (Contour.obround center width height)]] := ⟨_, _, _, rfl⟩
    obtain ⟨center, width, height, isTrace⟩ := isTrace
    rw [(hasObjects_plot _).shapes, List.length_map, objects, isTrace]
    simp [Canvas.objectsOf, Canvas.Operation.objects, PlottedObject.stamped?,
      Contour.length_obround]
  have kept : ∀ command ∈ ([.select 10] : List (Command ℝ)),
      command.definition? 10 = none :=
    List.forall_mem_singleton.mpr rfl
  exact ⟨flashes, single,
    (@box_eq_around_of_flash [.units .inches] _ before [] _
      (.obround 1 2) _ _ _ _ rfl one_pos
      two_pos rfl kept flashes single).1⟩

end Machine

end Photoplot
