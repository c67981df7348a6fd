import Photoplot.Proofs.Plot.Region

/-! # The objects of a plot

What operations leave on the canvas, object by object. Strokes and flashes leave their
objects at once, a region leaves one object when it ends. The primitives of a plot are
those of its objects in a row, and its shapes are those of its objects. -/

namespace Photoplot

structure PlottedObject (K : Type) where
  primitives : List (Path.Primitive K)
  shape : Shape K

namespace PlottedObject

variable {K : Type}

def ofContour (contour : Contour K) : PlottedObject K := ⟨[.polygon contour], [contour]⟩

variable [PlaneScalar K]

def ofBand (arc : Arc K) (width : K) : PlottedObject K :=
  ⟨Canvas.bandPrimitives arc width, arc.band width⟩

def stamped? : Path.Primitive K → Option (PlottedObject K)
  | .circle center radius =>
      if radius ≤ 0.0 then none
      else some ⟨[.circle center radius], [Contour.circle center radius]⟩
  | .polygon contour => if contour.length < 3 then none else some (ofContour contour)
  | _ => none

/-- Only circles with an extent and polygons with enough vertices leave something. -/
theorem stamped_cases {primitive : Path.Primitive K} {object : PlottedObject K}
    (stamped : stamped? primitive = some object) :
    (∃ center radius, ¬radius ≤ 0.0 ∧ primitive = .circle center radius ∧
        object = ⟨[.circle center radius], [Contour.circle center radius]⟩) ∨
      ∃ contour, 3 ≤ contour.length ∧ primitive = .polygon contour ∧
        object = .ofContour contour := by
  unfold stamped? at stamped
  split at stamped
  · rename_i center radius
    split at stamped
    · cases stamped
    · rename_i wide
      exact .inl ⟨center, radius, wide, rfl, (Option.some.inj stamped).symm⟩
  · rename_i contour
    split at stamped
    · cases stamped
    · rename_i enough
      exact .inr ⟨contour, not_lt.mp enough, rfl, (Option.some.inj stamped).symm⟩
  · cases stamped

end PlottedObject

namespace Plot

variable {K : Type}

structure HasObjects (plot : Plot K) (objects : List (PlottedObject K)) : Prop where
  primitives : plot.primitives = objects.flatMap PlottedObject.primitives
  shapes : plot.shapes = objects.map PlottedObject.shape

variable {plot other : Plot K} {objects : List (PlottedObject K)}

theorem HasObjects.of_sameObjects (holds : plot.HasObjects objects)
    (same : plot.SameObjects other) : other.HasObjects objects :=
  ⟨same.1.trans holds.primitives, same.2.1.trans holds.shapes⟩

end Plot

namespace Canvas

variable {K : Type} [PlaneScalar K]

def Operation.objects (sketch : Sketch K) : Operation K → List (PlottedObject K)
  | .strokeLine start finish width =>
      (Contour.stroke? start finish width).toList.map .ofContour
  | .strokeArc _ arc width => [.ofBand arc width]
  | .stamp primitives => primitives.filterMap PlottedObject.stamped?
  | .endRegion => if sketch.shape.isEmpty then [] else [⟨sketch.path, sketch.shape⟩]
  | _ => []

inductive Leaves (sketch : Sketch K) : Operation K → PlottedObject K → Prop
  | contour {operation : Operation K} {contour : Contour K}
      (corners : 3 ≤ contour.length) :
      Leaves sketch operation (.ofContour contour)
  | circle {operation : Operation K} (center : Point K) (radius : K) :
      Leaves sketch operation ⟨[.circle center radius], [Contour.circle center radius]⟩
  | band (start : Point K) (arc : Arc K) (width : K) :
      Leaves sketch (.strokeArc start arc width) (.ofBand arc width)
  | region
      (some : sketch.shape ≠ []) : Leaves sketch .endRegion ⟨sketch.path, sketch.shape⟩

theorem three_le_length_stroke {start finish : Point K} {width : K} {contour : Contour K}
    (stroke : Contour.stroke? start finish width = some contour) :
    3 ≤ contour.length := by
  simp only [Contour.stroke?] at stroke
  split at stroke
  · cases stroke
  · rcases Option.some.inj stroke with rfl
    simp

theorem leaves_of_stamped {sketch : Sketch K} {operation : Operation K}
    {primitive : Path.Primitive K} {object : PlottedObject K}
    (stamped : PlottedObject.stamped? primitive = some object) :
    Leaves sketch operation object := by
  rcases PlottedObject.stamped_cases stamped with
    ⟨center, radius, -, -, rfl⟩ | ⟨contour, enough, -, rfl⟩
  · exact .circle center radius
  · exact .contour enough

theorem leaves_of_mem_objects {sketch : Sketch K} {operation : Operation K}
    {object : PlottedObject K} (left : object ∈ operation.objects sketch) :
    Leaves sketch operation object := by
  cases operation with
  | strokeLine start finish width =>
      rcases List.mem_map.mp left with ⟨contour, isStroke, rfl⟩
      exact .contour (three_le_length_stroke (Option.mem_toList.mp isStroke))
  | strokeArc start arc width =>
      rcases List.mem_singleton.mp left with rfl
      exact .band start arc width
  | stamp primitives =>
      rcases List.mem_filterMap.mp left with ⟨primitive, -, stamped⟩
      exact leaves_of_stamped stamped
  | endRegion =>
      simp only [Operation.objects] at left
      split at left
      · cases left
      · rename_i some
        rcases List.mem_singleton.mp left with rfl
        exact .region (by simpa using some)
  | _ => cases left

def objectsOf (sketch : Sketch K) : List (Operation K) → List (PlottedObject K)
  | [] => []
  | operation :: rest => operation.objects sketch ++
      objectsOf (sketch.draw operation) rest

theorem exists_leaves_of_mem_objectsOf {sketch : Sketch K}
    {operations : List (Operation K)}
    {object : PlottedObject K} (member : object ∈ objectsOf sketch operations) :
    ∃ operation ∈ operations, ∃ current, Leaves current operation object := by
  induction operations generalizing sketch with
  | nil => cases member
  | cons operation rest induction =>
      rcases List.mem_append.mp member with own | later
      · exact ⟨operation, List.mem_cons_self, sketch, leaves_of_mem_objects own⟩
      · rcases induction later with ⟨other, isOther, current, left⟩
        exact ⟨other, List.mem_cons_of_mem _ isOther, current, left⟩

/-! ## Operations -/

variable {canvas : Canvas K} {objects : List (PlottedObject K)}

theorem hasObjects_addObject (holds : canvas.plot.HasObjects objects)
    (primitives : List (Path.Primitive K)) (shape : Shape K) (extent : List (Point K)) :
    (canvas.addObject primitives shape extent).plot.HasObjects
      (objects ++ [⟨primitives, shape⟩]) := by
  constructor
  · simp [addObject, holds.primitives]
  · simp [addObject, holds.shapes]

theorem hasObjects_strokeLine (holds : canvas.plot.HasObjects objects)
    (start finish : Point K) (width : K) :
    (canvas.strokeLine start finish width).plot.HasObjects
      (objects ++ (Contour.stroke? start finish width).toList.map .ofContour) := by
  unfold strokeLine
  cases Contour.stroke? start finish width with
  | none => simpa using holds
  | some contour =>
      exact hasObjects_addObject
        (holds.of_sameObjects (canvas.sameObjects_extendChain _ _)) _ _ _

theorem hasObjects_stampOne (holds : canvas.plot.HasObjects objects)
    (primitive : Path.Primitive K) :
    (canvas.stampOne primitive).plot.HasObjects
      (objects ++ (PlottedObject.stamped? primitive).toList) := by
  cases primitive with
  | circle center radius =>
      simp only [stampOne, PlottedObject.stamped?]
      split
      · simpa using holds
      · exact hasObjects_addObject holds _ _ _
  | polygon contour =>
      simp only [stampOne, PlottedObject.stamped?]
      split
      · simpa using holds
      · exact hasObjects_addObject holds _ _ _
  | _ => simpa [stampOne, PlottedObject.stamped?] using holds

theorem hasObjects_stamp (holds : canvas.plot.HasObjects objects)
    (primitives : List (Path.Primitive K)) :
    (canvas.stamp primitives).plot.HasObjects
      (objects ++ primitives.filterMap PlottedObject.stamped?) := by
  have begun := holds.of_sameObjects canvas.sameObjects_breakChain
  clear holds
  unfold stamp
  generalize canvas.breakChain = current at begun
  induction primitives generalizing current objects with
  | nil => simpa using begun
  | cons first rest induction =>
      have stamped := induction _ (hasObjects_stampOne begun first)
      have split : (first :: rest).filterMap PlottedObject.stamped? =
          (PlottedObject.stamped? first).toList ++
          rest.filterMap PlottedObject.stamped? := by
        rw [List.filterMap_cons]
        cases PlottedObject.stamped? first <;> rfl
      rw [List.append_assoc, ← split] at stamped
      exact stamped

theorem hasObjects_endRegion {sketch : Sketch K}
    (collects : canvas.collected = sketch.collected)
    (holds : canvas.plot.HasObjects objects) :
    canvas.endRegion.plot.HasObjects
      (objects ++ Operation.objects sketch .endRegion) := by
  have ended := (objects_endRegion collects).2
  simp only [Operation.objects]
  split at ended
  · rename_i nothing
    rw [if_pos nothing, List.append_nil]
    exact holds.of_sameObjects ended
  · rename_i some
    rw [if_neg some]
    constructor
    · simp [ended.1, holds.primitives]
    · simp [ended.2.1, holds.shapes]

theorem hasObjects_carryOut {sketch : Sketch K}
    (collects : canvas.collected = sketch.collected)
    (holds : canvas.plot.HasObjects objects) (operation : Operation K) :
    (canvas.carryOut operation).plot.HasObjects
      (objects ++ operation.objects sketch) := by
  have quiet (quiet : ¬operation.AddsObjects) :
      (canvas.carryOut operation).plot.HasObjects (objects ++ []) := by
    rw [List.append_nil]
    exact holds.of_sameObjects (canvas.sameObjects_carryOut quiet)
  cases operation with
  | strokeLine start finish width => exact hasObjects_strokeLine holds start finish width
  | strokeArc start arc width =>
      exact hasObjects_addObject
        (holds.of_sameObjects (canvas.sameObjects_extendChain _ _)) _ _ _
  | stamp primitives => exact hasObjects_stamp holds primitives
  | endRegion => exact hasObjects_endRegion collects holds
  | _ => exact quiet id

theorem hasObjects_foldl {sketch : Sketch K}
    (collects : canvas.collected = sketch.collected)
    (holds : canvas.plot.HasObjects objects) (operations : List (Operation K)) :
    (operations.foldl carryOut canvas).plot.HasObjects
      (objects ++ objectsOf sketch operations) := by
  induction operations generalizing canvas sketch objects with
  | nil => simpa [objectsOf] using holds
  | cons operation rest induction =>
      have later := induction (collected_carryOut collects operation)
        (hasObjects_carryOut collects holds operation)
      rw [List.append_assoc] at later
      exact later

end Canvas

/-! ## Runs -/

namespace Machine

variable {K : Type} [PlaneScalar K]

def objects (commands : List (Command K)) : List (PlottedObject K) :=
  Canvas.objectsOf .empty (start.trace commands)

theorem hasObjects_plot (commands : List (Command K)) :
    (plot commands).value.HasObjects (objects commands) := by
  have blank : (start : Machine K).canvas.plot.HasObjects [] := ⟨rfl, rfl⟩
  have begun : (start : Machine K).canvas.collected = Canvas.Sketch.empty.collected := rfl
  have run := Canvas.hasObjects_foldl begun blank (start.trace commands)
  rw [← canvas_run] at run
  exact run.of_sameObjects (start.run commands).value.sameObjects_finish

end Machine

end Photoplot
