import Photoplot.Proofs.Binary64.RoundTrip
import Photoplot.Proofs.Path.Steps

/-! # Mirrored drawings

Every float but the undefined one is legible in a path, the infinities included. So the
text of a drawing with finite coordinates is read as the steps of the drawing, and
mirroring the text is mirroring the drawing. -/

namespace Photoplot.Path

/-! ## Floats in a path -/

theorem legible_of_comparable {number : Float} (comparable : number ≤ number) :
    Legible number := by
  have rounded := Binary64.comparable_roundPlaces comparable
  have read := Binary64.read_plain rounded
  refine ⟨?_, read⟩
  change Solid (Layout.plain (Scalar.roundPlaces 6 number))
  rcases Layout.plain_eq (Scalar.roundPlaces 6 number) with word | ⟨decimal, written⟩
  · simp only [Layout.words, List.mem_cons, List.not_mem_nil, or_false] at word
    rcases word with negative | positive | undefined
    · rw [negative]
      decide
    · rw [positive]
      decide
    · -- the word for the undefined value holds a letter of the grammar
      have same : Scalar.read? "NaN".toList = some (0.0 / 0.0 : Float) := by decide
      rw [undefined, same] at read
      rw [← Option.some.inj read] at rounded
      exact absurd rounded (by decide)
  · rw [written]
    exact solid_decimal decimal

def Primitive.IsFinite : Primitive Float → Prop
  | .moveTo point => point.IsFinite = true
  | .lineTo point => point.IsFinite = true
  | .arcTo radius _ _ finish => radius ≤ radius ∧ finish.IsFinite = true
  | .close => True
  | .polygon contour => ∀ point ∈ contour, point.IsFinite = true
  | .circle center radius => center.IsFinite = true ∧ radius ≤ radius

instance (primitive : Primitive Float) : Decidable primitive.IsFinite := by
  unfold Primitive.IsFinite
  split <;> infer_instance

/-! ## Finite drawings -/

theorem legible_of_isFinite {point : Point Float} (finite : point.IsFinite = true) :
    Legible point.x ∧ Legible point.y := by
  simp only [Point.IsFinite, Bool.and_eq_true] at finite
  exact ⟨legible_of_comparable (Binary64.comparable_of_isFinite finite.1),
    legible_of_comparable (Binary64.comparable_of_isFinite finite.2)⟩

theorem isLegible_of_point {point : Point Float} (x : Legible point.x)
    (y : Legible point.y) :
    (Step.move point).IsLegible ∧ (Step.line point).IsLegible ∧
      ∀ radius large sweep,
        Legible radius → (Step.arc radius large sweep point).IsLegible := by
  simp [Step.IsLegible, Step.numbers, x, y]

theorem isLegible_close : (Step.close : Step Float).IsLegible := by
  simp [Step.IsLegible, Step.numbers]

theorem isLegible_contourSteps {contour : Contour Float}
    (finite : ∀ point ∈ contour, point.IsFinite = true) :
    ∀ step ∈ contourSteps contour, step.IsLegible := by
  have points : ∀ point ∈ contour,
      (Step.move point).IsLegible ∧ (Step.line point).IsLegible := by
    intro point member
    rcases legible_of_isFinite (finite point member) with ⟨x, y⟩
    exact ⟨(isLegible_of_point x y).1, (isLegible_of_point x y).2.1⟩
  cases contour with
  | nil => simp [contourSteps]
  | cons first rest =>
      intro step member
      simp only [contourSteps, List.cons_append, List.mem_cons, List.mem_append,
        List.mem_map, List.not_mem_nil, or_false] at member
      rcases member with rfl | ⟨point, among, rfl⟩ | rfl
      · exact (points first (by simp)).1
      · exact (points point (by simp [among])).2
      · exact isLegible_close

/-- The outermost points of a circle may be infinite, but they are numbers. -/
theorem isLegible_steps {primitive : Primitive Float} (finite : primitive.IsFinite) :
    ∀ step ∈ primitive.steps, step.IsLegible := by
  cases primitive with
  | moveTo point =>
      rcases legible_of_isFinite finite with ⟨x, y⟩
      simpa [Primitive.steps] using (isLegible_of_point x y).1
  | lineTo point =>
      rcases legible_of_isFinite finite with ⟨x, y⟩
      simpa [Primitive.steps] using (isLegible_of_point x y).2.1
  | arcTo radius large sweep finish =>
      rcases legible_of_isFinite finite.2 with ⟨x, y⟩
      simpa [Primitive.steps] using
        (isLegible_of_point x y).2.2 radius large sweep (legible_of_comparable finite.1)
  | close => simpa [Primitive.steps] using isLegible_close
  | polygon contour => exact isLegible_contourSteps finite
  | circle center radius =>
      rcases finite with ⟨finiteCenter, comparable⟩
      have y := (legible_of_isFinite finiteCenter).2
      simp only [Point.IsFinite, Bool.and_eq_true] at finiteCenter
      have right :=
          legible_of_comparable (Binary64.comparable_add finiteCenter.1 comparable)
      have left :=
          legible_of_comparable (Binary64.comparable_sub finiteCenter.1 comparable)
      have isRadius := legible_of_comparable comparable
      have rightmost := @isLegible_of_point ⟨center.x + radius, center.y⟩ right y
      have leftmost := @isLegible_of_point ⟨center.x - radius, center.y⟩ left y
      simp only [Primitive.steps, List.forall_mem_cons, List.not_mem_nil, false_implies,
        implies_true, and_true]
      exact ⟨rightmost.1, leftmost.2.2 radius false true isRadius,
        rightmost.2.2 radius false true isRadius, isLegible_close⟩

/-- The text of a drawing is read as the steps that the drawing spells, and the mirrored
text is that of the mirrored steps; polygons of shapes are no different. -/
theorem mirror_ofPrimitives_ofShapes {primitives : List (Primitive Float)}
    {shapes : List (Shape Float)} {box : Box Float}
    (finite : ∀ primitive ∈ primitives, primitive.IsFinite)
    (finiteShapes : ∀ contour ∈ shapes.flatten, ∀ point ∈ contour, point.IsFinite = true)
    (nonempty : box.isEmpty = false) :
    let steps := primitives.flatMap Primitive.steps
    let outlines := shapes.flatten.flatMap contourSteps
    (read (ofPrimitives primitives) = steps.map Step.command ∧
      mirror (ofPrimitives primitives) box =
        Command.spell (steps.map fun step => (step.mirrored box.centerX).command)) ∧
    (read (ofShapes shapes) = outlines.map Step.command ∧
      mirror (ofShapes shapes) box =
        Command.spell (outlines.map fun step =>
          (step.mirrored box.centerX).command)) := by
  intro steps outlines
  have legible : ∀ step ∈ steps, step.IsLegible := by
    intro step member
    rcases List.mem_flatMap.mp member with ⟨primitive, isPrimitive, isStep⟩
    exact isLegible_steps (finite primitive isPrimitive) step isStep
  have legibleOutlines : ∀ step ∈ outlines, step.IsLegible := by
    intro step member
    rcases List.mem_flatMap.mp member with ⟨contour, isContour, isStep⟩
    exact isLegible_contourSteps (finiteShapes contour isContour) step isStep
  have isRead := read_ofPrimitives legible
  have isReadOutlines := read_ofShapes legibleOutlines
  exact ⟨⟨isRead, mirror_eq isRead legible nonempty⟩,
    ⟨isReadOutlines, mirror_eq isReadOutlines legibleOutlines nonempty⟩⟩

def sampleDrawing : List (Primitive Float) :=
  [.moveTo ⟨0.1234567, -2.5⟩, .lineTo ⟨3.0, 1e-7⟩, .arcTo 0.5 false true ⟨4.0, 0.0⟩,
    .polygon [], .polygon [⟨1.0, 1.0⟩, ⟨2.0, 1.0⟩, ⟨1.5, 1e20⟩], .close,
    .circle ⟨1e-3, -7.25⟩ 0.2]

/-- The sample beside a square with a hole and a shape without contours. -/
theorem mirror_sampleDrawing :
    let box : Box Float := .ofRect 0.0 0.0 10.0 4.0
    let shapes : List (Shape Float) :=
      [[[⟨0.0, 0.0⟩, ⟨4.0, 0.0⟩, ⟨4.0, 4.0⟩, ⟨0.0, 4.0⟩],
        [⟨1.0, 1.0⟩, ⟨1.0, 2.0⟩, ⟨2.0, 1.0⟩]], []]
    let steps := sampleDrawing.flatMap Primitive.steps
    let outlines := shapes.flatten.flatMap contourSteps
    (read (ofPrimitives sampleDrawing) = steps.map Step.command ∧
      mirror (ofPrimitives sampleDrawing) box =
        Command.spell (steps.map fun step => (step.mirrored box.centerX).command)) ∧
    (read (ofShapes shapes) = outlines.map Step.command ∧
      mirror (ofShapes shapes) box =
        Command.spell (outlines.map fun step => (step.mirrored box.centerX).command)) :=
  mirror_ofPrimitives_ofShapes (by decide +kernel) (by decide +kernel) (by decide +kernel)

end Photoplot.Path
