import Photoplot.Proofs.Plot.Subpaths
import Photoplot.Layer

/-! # The path of a layer

Whatever the text, the options, the plate and the answer of the kernel, the path
of a layer is a row of closed subpaths, provided that the coordinates on the way
to it are finite. -/

namespace Photoplot

namespace Clearance

variable {K : Type} [PlaneScalar K]

theorem length_simplifyContour {contour kept : Contour K}
    (simplified : simplifyContour? contour = some kept) : 3 ≤ kept.length := by
  cases contour with
  | nil => cases simplified
  | cons first rest =>
      simp only [simplifyContour?] at simplified
      split at simplified
      · rename_i enough
        rcases Option.some.inj simplified with rfl
        exact enough
      · cases simplified

theorem length_simplify (shapes : List (Shape K)) :
    ∀ contour ∈ (simplify shapes).flatten, 3 ≤ contour.length := by
  intro contour member
  rcases List.mem_flatten.mp member with ⟨shape, isShape, own⟩
  rcases List.mem_filterMap.mp isShape with ⟨original, -, simplified⟩
  cases original with
  | nil => cases simplified
  | cons outer holes =>
      rcases Option.map_eq_some_iff.mp simplified with ⟨kept, isKept, rfl⟩
      rcases List.mem_cons.mp own with rfl | isHole
      · exact length_simplifyContour isKept
      · rcases List.mem_filterMap.mp isHole with ⟨hole, -, keptHole⟩
        exact length_simplifyContour keptHole

theorem length_compute (cutter : Cutter K) (request : Request K)
    (inverted : (compute cutter request).value.inverted = true) :
    ∀ contour ∈ (compute cutter request).value.shapes.flatten, 3 ≤ contour.length := by
  have settled : ∀ answer shapes, settle answer = .ok shapes →
      ∀ contour ∈ (shapes : List (Shape K)).flatten, 3 ≤ contour.length := by
    intro answer shapes result
    match answer with
    | .error (.error _) => cases result
    | .error .crash => cases result
    | .ok found =>
        simp only [settle] at result
        split at result
        · cases result
        · rcases Except.ok.inj result with rfl
          exact length_simplify found
  unfold compute at inverted ⊢
  cases refused : refusal? request with
  | some warning => simp [refused, unchanged] at inverted
  | none =>
      cases answer :
          settle (cutter (request.plate.shapes request.margin) request.traces) with
      | error warning => simp [refused, answer, unchanged] at inverted
      | ok shapes =>
          exact settled _ shapes answer

end Clearance

namespace Path

theorem drawn_shapes {K : Type} [Scalar K] {shapes : List (Shape K)}
    (enough : ∀ contour ∈ shapes.flatten, 3 ≤ contour.length) :
    Drawn (IsCoordinate K) (shapes.flatten.flatMap contourCommands) :=
  drawn_flatMap _ _ fun contour member => drawn_polygon (enough contour member)

end Path

namespace Geometry

variable {K : Type} [PlaneScalar K]

def IsDrawn (geometry : Geometry K) : Prop :=
  ∃ commands, Path.Drawn (Path.IsCoordinate K) commands ∧
    geometry.path = Path.Command.spell commands

/-- The plot of a text, if there is one, is that of the commands in it. -/
theorem plot_eq (text : Text) {plot : Plot K}
    (plotted : (Layer.plot text).value = .ok plot) :
    plot = (Machine.plot (Program.ofBlocks (Block.scan text)).value).value := by
  unfold Layer.plot at plotted
  split at plotted
  · cases plotted
  · simp only [Noted.value_bind] at plotted
    split at plotted
    · cases plotted
    · exact (Except.ok.inj plotted).symm

theorem ofLayer_eq (cutter : Cutter K) (text : Text) (options : Options K)
    (plate : Option (Plate K)) :
    let direct := (ofLayer cutter text { options with mirror := false } plate).value
    (ofLayer cutter text options plate).value =
      if options.mirror then direct.mirrored else direct := by
  simp only [ofLayer, Noted.value_bind]
  cases plotted : (Layer.plot (K := K) text).value with
  | error error =>
      have unmirrored : (empty : Geometry K).mirrored = empty := rfl
      simp [unmirrored]
  | ok plot => cases options.invert <;> cases options.mirror <;> rfl

/-- A layer that is not mirrored shows nothing, the plot of its commands or a
clearance. -/
theorem direct_cases {Shown : Geometry K → Prop} (cutter : Cutter K) (text : Text)
    (options : Options K) (plate : Option (Plate K)) (blank : Shown empty)
    (plotted : Shown
      (ofPlot (Machine.plot (Program.ofBlocks (Block.scan text)).value).value))
    (cleared : ∀ request, (Clearance.compute cutter request).value.inverted = true →
      Shown ⟨Path.ofShapes (Clearance.compute cutter request).value.shapes,
        (Clearance.compute cutter request).value.box, true⟩) :
    Shown (ofLayer cutter text { options with mirror := false } plate).value := by
  simp only [ofLayer, Noted.value_bind]
  cases outcome : (Layer.plot (K := K) text).value with
  | error error => exact blank
  | ok plot =>
      rw [← plot_eq text outcome] at plotted
      have clearance : Shown (ofClearance cutter options.margin plate plot).value := by
        simp only [ofClearance, Noted.value_bind]
        split
        · rename_i inverted
          exact cleared _ inverted
        · exact plotted
      cases options.invert with
      | true => exact clearance
      | false => exact plotted

theorem isDrawn_direct (cutter : Cutter K) (text : Text) (options : Options K)
    (plate : Option (Plate K)) :
    (ofLayer cutter text { options with mirror := false } plate).value.IsDrawn := by
  have closed :=
      Machine.closedRow_plot (Program.ofBlocks (K := K) (Block.scan text)).value
  apply direct_cases
  · exact ⟨[], Path.drawn_nil, rfl⟩
  · exact ⟨_, closed.drawn, Path.ofPrimitives_eq_spell closed.commands_ne_nil⟩
  · intro request inverted
    exact ⟨_, Path.drawn_shapes (Clearance.length_compute cutter request inverted), rfl⟩

/-- The path of a layer belongs to the grammar of drawn paths. Coordinates have to
be finite when the path is drawn and, if it is mirrored, once more. -/
theorem ofLayer_inGrammar (cutter : Cutter Float) (text : Text) (options : Options Float)
    (plate : Option (Plate Float))
    (drawn : Path.IsFinite
      (ofLayer cutter text { options with mirror := false } plate).value.path)
    (finite : Path.IsFinite (ofLayer cutter text options plate).value.path) :
    Path.InGrammar (ofLayer cutter text options plate).value.path := by
  rcases isDrawn_direct cutter text options plate with ⟨commands, coordinates, spelled⟩
  rw [spelled] at drawn
  have decimals := coordinates.finite drawn
  rw [ofLayer_eq] at finite ⊢
  cases mirror : options.mirror with
  | false =>
      simp only [Bool.false_eq_true, if_false]
      exact ⟨commands, decimals, spelled⟩
  | true =>
      simp only [mirror, if_true, mirrored, spelled] at finite ⊢
      rcases Path.exists_mirror_eq decimals
        (ofLayer cutter text { options with mirror := false } plate).value.box with
        ⟨others, otherCoordinates, respelled⟩
      rw [respelled] at finite ⊢
      exact ⟨others, otherCoordinates.finite finite, rfl⟩

def triangle : Text :=
  "%FSLAX24Y24*%%MOMM*%G36*X0Y0D02*X10000Y0D01*X0Y10000D01*X0Y0D01*G37*M02*".toList

def noCutter : Cutter Float := fun _ _ => .error .crash

theorem ofLayer_inGrammar_triangle :
    let path := (ofLayer noCutter triangle ⟨false, 1.0, true⟩ none).value.path
    path = "M 1 0 L 0 0 L 1 1 L 1 0 Z".toList ∧ Path.InGrammar path := by
  have drawn : Path.IsFinite
      (ofLayer noCutter triangle ⟨false, 1.0, false⟩ none).value.path := by decide +kernel
  have mirrored : (ofLayer noCutter triangle ⟨false, 1.0, true⟩ none).value.path =
      "M 1 0 L 0 0 L 1 1 L 1 0 Z".toList := by decide +kernel
  have finite : Path.IsFinite
      (ofLayer noCutter triangle ⟨false, 1.0, true⟩ none).value.path := by
    rw [mirrored]
    decide +kernel
  exact ⟨mirrored,
    ofLayer_inGrammar noCutter triangle ⟨false, 1.0, true⟩ none drawn finite⟩

end Geometry

end Photoplot
