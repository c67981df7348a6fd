import Photoplot.Proofs.Geometry.Similarity
import Photoplot.Proofs.Template.Independence

/-! # Placing the figures of aperture macros

A figure is built upright, turned about the flash point by its rotation, scaled and moved.
So the polygon that is drawn is similar to the upright one, vertex for vertex, with an
area that neither the rotation nor the flash point has a part in. -/

namespace Photoplot.Template

/-! ## Upright figures -/

namespace Figure

def rotation {K : Type} [Scalar K] : Figure K → Expr K
  | circle _ _ rotation => rotation.getD (.literal 0.0)
  | line _ _ _ rotation => rotation
  | outline _ rotation => rotation
  | rectangle _ _ _ rotation => rotation
  | polygon _ _ _ rotation => rotation

def upright {K : Type} [Scalar K] : Figure K → Figure K
  | circle diameter center _ => .circle diameter center none
  | line width start finish _ => .line width start finish (.literal 0.0)
  | outline vertices _ => .outline vertices (.literal 0.0)
  | rectangle width height center _ => .rectangle width height center (.literal 0.0)
  | polygon vertices center diameter _ => .polygon vertices center diameter (.literal 0.0)

end Figure

noncomputable def Local.turn (angle : ℝ) : Local ℝ → Local ℝ
  | circle center radius => .circle (center.rotate angle) radius
  | polygon contour => .polygon (contour.map (Point.rotate angle))

theorem rotate_zero : Point.rotate (0.0 : ℝ) = id := by
  funext point
  apply if_pos
  change |(0.0 : ℝ)| < 1e-9
  norm_num

theorem turn_rotated (angle : ℝ) (contour : Contour ℝ) :
    (rotated contour 0.0).turn angle = rotated contour angle := by
  simp [rotated, Local.turn, rotate_zero]

theorem eval_zero (bindings : Bindings ℝ) :
    (Expr.literal (0.0 : ℝ)).eval bindings = some 0.0 := rfl

theorem Figure.rotation_mem_fields {figure : Figure ℝ} {bindings : Bindings ℝ}
    (unresolved : figure.rotation.eval bindings = none) :
    figure.rotation ∈ figure.fields := by
  cases figure with
  | circle diameter center rotation =>
      cases rotation with
      | none => cases unresolved
      | some rotation => simp [Figure.rotation, fields]
  | _ => simp [Figure.rotation, fields]

/-- The rotation is the last thing to happen to a figure. -/
theorem Figure.eval_eq_turn (bindings : Bindings ℝ) (figure : Figure ℝ) :
    figure.eval bindings =
      (figure.rotation.eval bindings).bind fun angle =>
        (figure.upright.eval bindings).map (Option.map (Local.turn angle)) := by
  cases turned : figure.rotation.eval bindings with
  | none => exact Figure.eval_eq_none (Figure.rotation_mem_fields turned) turned
  | some angle =>
      rw [Option.bind_some]
      cases figure with
      | circle diameter center rotation =>
          have moved (radius : ℝ) (center : Point ℝ) :
              (Local.circle (center.rotate 0.0) radius).turn angle =
                .circle (center.rotate angle) radius := by
            simp [Local.turn, rotate_zero]
          cases rotation with
          | none =>
              rcases Option.some.inj turned with rfl
              simp [eval, upright, Option.map_bind, apply_ite, moved]
          | some rotation =>
              simp only [Figure.rotation, Option.getD_some] at turned
              simp [eval, upright, turned, Option.map_bind, apply_ite, moved]
      | _ =>
          simp only [Figure.rotation] at turned
          simp [eval, upright, turned, eval_zero, Option.map_bind, Function.comp_def,
            apply_ite, turn_rotated]

/-! ## Placed polygons -/

/-- A polygon is placed by a similarity. -/
theorem isSimilarity_placed (angle scale : ℝ) (origin : Point ℝ) :
    IsSimilarity scale fun point => Local.place.moved scale origin (point.rotate angle) :=
  (Point.isSimilarity_rotate angle).then_place scale origin

theorem primitives_of_upright {bindings : Bindings ℝ} {exposure : Expr ℝ}
    {figure : Figure ℝ} {contour : Contour ℝ} {value angle : ℝ}
    (exposed : exposure.eval bindings = some value)
    (on : ¬value < 0.5) (turned : figure.rotation.eval bindings = some angle)
    (isUpright : figure.upright.eval bindings = some (some (.polygon contour)))
    (name : Text) (scale : ℝ) (origin : Point ℝ) :
    (Statement.draw exposure figure).primitives name scale origin bindings =
      return [.polygon (contour.map fun point =>
        Local.place.moved scale origin (point.rotate angle))] := by
  have drawn : figure.eval bindings =
      some (some (.polygon (contour.map (Point.rotate angle)))) := by
    rw [Figure.eval_eq_turn, turned, isUpright]
    rfl
  have evaluated : evalPrimitive bindings exposure figure =
      some (some (.polygon (contour.map (Point.rotate angle)))) := by
    simp [evalPrimitive, exposed, on, drawn]
  simp [Statement.primitives, evaluated, Local.place, Function.comp_def]

/-- A figure that is a polygon when it is upright is drawn as that polygon, vertex for
vertex turned, scaled and moved. So all distances are scaled alike and the area is scaled
by the square, whatever the rotation and the flash point are, and the polygon goes around
the same way. -/
theorem flash_draws_similar {template : Template ℝ} {before after : List (Statement ℝ)}
    {exposure : Expr ℝ} {figure : Figure ℝ}
    (reached : template.statements = before ++ .draw exposure figure :: after)
    (parameters : List ℝ) (scale : ℝ) (origin : Point ℝ) {contour : Contour ℝ}
    {value angle : ℝ} :
    let bound := boundAfter template.name (.ofList parameters) before
    exposure.eval bound = some value → ¬value < 0.5 →
    figure.rotation.eval bound = some angle →
      figure.upright.eval bound = some (some (.polygon contour)) →
        ∃ move, IsSimilarity scale move ∧
          (flash template parameters scale origin).value =
            (run template.name scale origin (.ofList parameters) before).value ++
              .polygon (contour.map move) ::
                (run template.name scale origin bound after).value ∧
          (∀ first second, (move first).distance (move second) =
            |scale| * first.distance second) ∧
          Contour.area (contour.map move) = scale ^ 2 * contour.area ∧
          (scale ≠ 0 →
            SignType.sign (Contour.area (contour.map move)) =
            SignType.sign contour.area) := by
  intro bound exposed on turned isUpright
  have similar := isSimilarity_placed angle scale origin
  refine ⟨_, similar, ?_, similar.distance_eq, similar.area_eq contour,
    fun extended => similar.sign_area_eq extended contour⟩
  rw [flash, reached, value_run_append, value_run_cons _ _ _ _ rfl,
    primitives_of_upright exposed on turned isUpright]
  rfl

noncomputable def turnedRectangle : Figure ℝ :=
  .rectangle (.literal 2.0) (.literal 1.0) (.literal 1.0, .literal 0.0) (.var 1)

noncomputable def turnedPad : Template ℝ :=
  ⟨"PAD".toList, [.draw (.literal 1.0) turnedRectangle]⟩

/-- A quarter turn and inches: the pad of area two is drawn with 25.4² times that. -/
theorem flash_draws_similar_turnedPad :
    ∃ move, IsSimilarity 25.4 move ∧
      (flash turnedPad [90] 25.4 ⟨3, 4⟩).value =
        [.polygon ((Contour.rectangle ⟨1.0, 0.0⟩ 2.0 1.0).map move)] ∧
      (move ⟨0, 0⟩).distance (move ⟨3, 0⟩) = 25.4 * 3 ∧
      Contour.area ((Contour.rectangle ⟨1.0, 0.0⟩ 2.0 1.0).map move) = 25.4 ^ 2 * 2 := by
  have finite (value : ℝ) : Expr.finite? value = some value := rfl
  have area : (Contour.rectangle ⟨1.0, 0.0⟩ 2.0 1.0 : Contour ℝ).area = 2 := by
    norm_num [Contour.area, Contour.rectangle, Contour.edges, Contour.cross]
  have isUpright (bindings : Bindings ℝ) : turnedRectangle.upright.eval bindings =
      some (some (.polygon (Contour.rectangle ⟨1.0, 0.0⟩ 2.0 1.0))) := by
    have extended : (0.0 : ℝ) < 2.0 ∧ (0.0 : ℝ) < 1.0 := by norm_num
    simp [turnedRectangle, Figure.upright, Figure.eval, evalPair, Expr.eval, finite,
      extended, rotated, rotate_zero]
  have reached : turnedPad.statements =
      [] ++ .draw (.literal 1.0) turnedRectangle :: [] := rfl
  have on : ¬(1.0 : ℝ) < 0.5 := by norm_num
  rcases flash_draws_similar reached [90] 25.4 ⟨3, 4⟩ rfl on rfl (isUpright _) with
    ⟨move, similar, drawn, distance, scaled, -⟩
  refine ⟨move, similar, drawn, ?_, by rw [scaled, area]⟩
  rw [distance, Point.distance_along]
  norm_num

end Photoplot.Template
