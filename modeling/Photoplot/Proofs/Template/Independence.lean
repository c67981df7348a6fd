import Photoplot.Proofs.Scalar.Exact
import Photoplot.Proofs.Template.Variables

/-! # Primitives that stand alone

Only assignments change the variables of a macro. So every primitive draws what it draws
behind the assignments in front of it alone, and it may be left out or change places with
the primitives around it without a change to what those draw. -/

namespace Photoplot

def Path.Primitive.HasExtent : Path.Primitive ℝ → Prop
  | .polygon contour => 3 ≤ contour.length
  | .circle _ radius => 0 < radius
  | _ => False

namespace Template

variable {K : Type}

/-! ## Statements that are not assignments -/

def Statement.assigns : Statement K → Bool
  | assign _ _ => true
  | _ => false

def assignments (statements : List (Statement K)) : List (Statement K) :=
  statements.filter Statement.assigns

def solos : List (Statement K) → List (List (Statement K))
  | [] => []
  | .assign index value :: rest => (solos rest).map (.assign index value :: ·)
  | primitive :: rest => [primitive] :: solos rest

example (first second exposure : Expr K) (figure : Figure K) :
    solos [.assign 1 first, .draw exposure figure, .assign 2 second, .unsupported 7] =
      [[.assign 1 first, .draw exposure figure],
        [.assign 1 first, .assign 2 second, .unsupported 7]] := rfl

def Figure.IsDegenerate [PlaneScalar K] (bindings : Bindings K) : Figure K → Prop
  | circle diameter _ _ => ∃ value ∈ diameter.eval bindings, ¬0.0 < Scalar.abs value / 2.0
  | line _ start finish _ =>
      ∃ first ∈ evalPair bindings start, ∃ last ∈ evalPair bindings finish,
        PlaneScalar.hypot (last.x - first.x) (last.y - first.y) < degenerateLength
  | rectangle width height _ _ =>
      (∃ value ∈ width.eval bindings, ¬0.0 < value) ∨
        ∃ value ∈ height.eval bindings, ¬0.0 < value
  | outline vertices _ =>
      ∃ contour ∈ vertices.mapM (evalPair bindings), (openOutline contour).length < 3
  | polygon vertices _ diameter _ =>
      (∃ value ∈ vertices.eval bindings,
        ¬(3.0 ≤ Scalar.round value ∧ Scalar.round value ≤ 12.0)) ∨
        ∃ value ∈ diameter.eval bindings, ¬0.0 < value

inductive Statement.Idle [PlaneScalar K] (bindings : Bindings K) : Statement K → Prop
  | unsupported (code : Nat) : Idle bindings (.unsupported code)
  | off {exposure : Expr K} {figure : Figure K} {value : K}
      (evaluated : exposure.eval bindings = some value) (low : value < 0.5) :
      Idle bindings (.draw exposure figure)
  | unresolved {exposure field : Expr K} {figure : Figure K}
      (member : field ∈ exposure :: figure.fields)
      (without : field.eval bindings = none) :
      Idle bindings (.draw exposure figure)
  | degenerate {exposure : Expr K} {figure : Figure K}
      (extent : figure.IsDegenerate bindings) :
      Idle bindings (.draw exposure figure)

variable [PlaneScalar K] {bindings : Bindings K}

theorem exists_mapM_evalPair {vertices : List (ExprPair K)}
    (resolved : ∀ vertex ∈ vertices, ∃ point, evalPair bindings vertex = some point) :
    ∃ points, vertices.mapM (evalPair bindings) = some points := by
  induction vertices with
  | nil => exact ⟨[], rfl⟩
  | cons first rest induction =>
      rw [List.forall_mem_cons] at resolved
      rcases resolved.1 with ⟨point, placed⟩
      rcases induction resolved.2 with ⟨points, others⟩
      exact ⟨point :: points, by simp [placed, others]⟩

/-- Where all fields have a value, what is not degenerate is drawn. -/
theorem Figure.join_eval_of_resolved {figure : Figure K}
    (resolved : ∀ field ∈ figure.fields, ∃ value, field.eval bindings = some value) :
    (figure.eval bindings).join = none ↔ figure.IsDegenerate bindings := by
  cases figure with
  | circle diameter center rotation =>
      cases rotation with
      | none =>
          simp only [fields, Option.toList_none, List.cons_append, List.nil_append,
            List.forall_mem_cons] at resolved
          rcases resolved with ⟨⟨_, extent⟩, ⟨_, across⟩, ⟨_, up⟩, -⟩
          simp [eval, evalPair, IsDegenerate, extent, across, up]
      | some rotation =>
          simp only [fields, Option.toList_some, List.cons_append, List.nil_append,
            List.forall_mem_cons] at resolved
          rcases resolved with ⟨⟨_, extent⟩, ⟨_, across⟩, ⟨_, up⟩, ⟨_, turned⟩, -⟩
          simp [eval, evalPair, IsDegenerate, extent, across, up, turned]
  | line width start finish rotation =>
      simp only [fields, List.forall_mem_cons] at resolved
      rcases resolved with
        ⟨⟨_, wide⟩, ⟨_, startX⟩, ⟨_, startY⟩, ⟨_, finishX⟩, ⟨_, finishY⟩, ⟨_, turned⟩, -⟩
      simp [eval, evalPair, IsDegenerate, Contour.stroke?, wide, startX, startY, finishX,
        finishY, turned]
  | rectangle width height center rotation =>
      simp only [fields, List.forall_mem_cons] at resolved
      rcases resolved with ⟨⟨_, wide⟩, ⟨_, high⟩, ⟨_, across⟩, ⟨_, up⟩, ⟨_, turned⟩, -⟩
      simp [eval, evalPair, IsDegenerate, wide, high, across, up, turned,
        Decidable.imp_iff_not_or]
  | outline vertices rotation =>
      have placed : ∃ points, vertices.mapM (evalPair bindings) = some points := by
        apply exists_mapM_evalPair
        intro vertex isVertex
        have field {side : Expr K} (isSide : side ∈ [vertex.1, vertex.2]) :
            ∃ value, side.eval bindings = some value :=
          resolved side
            (List.mem_append_left _ (List.mem_flatMap.mpr ⟨vertex, isVertex, isSide⟩))
        rcases field List.mem_cons_self with ⟨x, across⟩
        rcases field (List.mem_cons_of_mem _ List.mem_cons_self) with ⟨y, up⟩
        exact ⟨⟨x, y⟩, by simp [evalPair, across, up]⟩
      rcases placed with ⟨points, placed⟩
      rcases resolved rotation (List.mem_append_right _ List.mem_cons_self) with
          ⟨_, turned⟩
      simp [eval, IsDegenerate, placed, turned]
  | polygon vertices center diameter rotation =>
      simp only [fields, List.forall_mem_cons] at resolved
      rcases resolved with
        ⟨⟨count, counted⟩, ⟨_, across⟩, ⟨_, up⟩, ⟨_, extent⟩, ⟨_, turned⟩, -⟩
      by_cases inRange : 3.0 ≤ Scalar.round count ∧ Scalar.round count ≤ 12.0
      · simp [eval, evalPair, IsDegenerate, counted, across, up, extent, turned, inRange]
      · exact iff_of_true (by simp [eval, counted, inRange])
          (.inl ⟨count, counted, inRange⟩)

theorem Figure.join_eval_eq_none_iff {figure : Figure K} :
    (figure.eval bindings).join = none ↔
      (∃ field ∈ figure.fields, field.eval bindings = none) ∨
      figure.IsDegenerate bindings := by
  by_cases unresolved : ∃ field ∈ figure.fields, field.eval bindings = none
  · rcases unresolved with ⟨field, isField, without⟩
    rw [Figure.eval_eq_none isField without]
    exact iff_of_true rfl (.inl ⟨field, isField, without⟩)
  · have resolved : ∀ field ∈ figure.fields, ∃ value, field.eval bindings = some value :=
      fun field isField => Option.ne_none_iff_exists'.mp fun without =>
        unresolved ⟨field, isField, without⟩
    rw [Figure.join_eval_of_resolved resolved, or_iff_right unresolved]

theorem Statement.primitives_eq_nil_iff {statement : Statement K}
    (draws : statement.assigns = false) (name : Text) (scale : K) (origin : Point K) :
    (statement.primitives name scale origin bindings).value = [] ↔
      statement.Idle bindings := by
  cases statement with
  | assign index value => cases draws
  | unsupported code => exact iff_of_true rfl (.unsupported code)
  | draw exposure figure =>
      have nothing :
          ((Statement.draw exposure figure).primitives name scale origin bindings).value =
            [] ↔
            (evalPrimitive bindings exposure figure).join = none := by
        simp only [primitives]
        split <;> simp_all
      rw [nothing]
      constructor
      · intro without
        cases evaluated : exposure.eval bindings with
        | none => exact .unresolved List.mem_cons_self evaluated
        | some value =>
            by_cases low : value < 0.5
            · exact .off evaluated low
            · have figureWithout : (figure.eval bindings).join = none := by
                simpa [evalPrimitive, evaluated, low] using without
              rcases Figure.join_eval_eq_none_iff.mp figureWithout with
                ⟨field, isField, unresolved⟩ | extent
              · exact .unresolved (List.mem_cons_of_mem exposure isField) unresolved
              · exact .degenerate extent
      · intro idle
        have figureWithout (without : (figure.eval bindings).join = none) :
            (evalPrimitive bindings exposure figure).join = none := by
          cases evaluated : exposure.eval bindings with
          | none => simp [evalPrimitive, evaluated]
          | some value =>
              by_cases low : value < 0.5 <;> simp [evalPrimitive, evaluated, low, without]
        cases idle with
        | off evaluated low => simp [evalPrimitive, evaluated, low]
        | unresolved member unresolved =>
            rcases List.mem_cons.mp member with rfl | isField
            · simp [evalPrimitive, unresolved]
            · exact figureWithout
                (Figure.join_eval_eq_none_iff.mpr (.inl ⟨_, isField, unresolved⟩))
        | degenerate extent =>
            exact figureWithout (Figure.join_eval_eq_none_iff.mpr (.inr extent))

/-! ## Extents -/

def Local.IsSolid : Local K → Prop
  | circle _ radius => 0.0 < radius
  | polygon contour => 3 ≤ contour.length

theorem Figure.isSolid_of_eval {figure : Figure K} {drawn : Local K}
    (evaluated : figure.eval bindings = some (some drawn)) : drawn.IsSolid := by
  cases figure with
  | circle diameter center rotation =>
      cases rotation <;>
        simp only [eval, Option.bind_eq_bind, Option.bind_eq_some_iff, Option.pure_def,
          Option.some_inj, Option.ite_none_right_eq_some, exists_eq_left'] at evaluated
      · rcases evaluated with ⟨_, -, _, -, extent, rfl⟩
        exact extent
      · rcases evaluated with ⟨_, -, _, -, _, -, extent, rfl⟩
        exact extent
  | line width start finish rotation =>
      simp only [eval, Option.bind_eq_bind, Option.bind_eq_some_iff, Option.pure_def,
        Option.some_inj, Option.map_eq_some_iff] at evaluated
      rcases evaluated with ⟨_, -, _, -, _, -, _, -, contour, stroke, rfl⟩
      unfold Contour.stroke? at stroke
      simp only [Option.ite_none_left_eq_some, Option.some_inj] at stroke
      rw [← stroke.2]
      simp [rotated, Local.IsSolid]
  | rectangle width height center rotation =>
      simp only [eval, Option.bind_eq_bind, Option.bind_eq_some_iff, Option.pure_def,
        Option.some_inj, Option.ite_none_right_eq_some] at evaluated
      rcases evaluated with ⟨_, -, _, -, _, -, _, -, -, rfl⟩
      simp [rotated, Local.IsSolid, Contour.rectangle]
  | outline vertices rotation =>
      simp only [eval, Option.bind_eq_bind, Option.bind_eq_some_iff, Option.pure_def,
        Option.some_inj, Option.ite_none_right_eq_some] at evaluated
      rcases evaluated with ⟨_, -, _, -, enough, rfl⟩
      simpa [rotated, Local.IsSolid] using enough
  | polygon vertices center diameter rotation =>
      simp only [eval, Option.bind_eq_bind, Option.bind_eq_some_iff, Option.pure_def,
        Option.some_inj, Option.ite_none_right_eq_some] at evaluated
      rcases evaluated with ⟨_, -, -, _, -, _, -, _, -, -, rfl⟩
      simp only [rotated, Local.IsSolid, Contour.regular, List.length_map,
        List.length_range]
      exact Nat.le_max_right _ 3

/-! ## Runs -/

section Runs

variable (name : Text) (scale : K) (origin : Point K)

theorem bind_of_draws (bindings : Bindings K) {statement : Statement K}
    (draws : statement.assigns = false) :
    (statement.bind name bindings).value = bindings := by
  cases statement with
  | assign index value => cases draws
  | _ => rfl

theorem boundAfter_of_draws (bindings : Bindings K) {statements : List (Statement K)}
    (draw : ∀ statement ∈ statements, statement.assigns = false) :
    boundAfter name bindings statements = bindings := by
  induction statements with
  | nil => rfl
  | cons statement rest induction =>
      rw [List.forall_mem_cons] at draw
      rw [boundAfter, List.foldl_cons, bind_of_draws name bindings draw.1]
      exact induction draw.2

/-- Only the assignments matter for the variables. -/
theorem boundAfter_assignments (bindings : Bindings K) (statements : List (Statement K)) :
    boundAfter name bindings (assignments statements) =
      boundAfter name bindings statements := by
  induction statements generalizing bindings with
  | nil => rfl
  | cons statement rest induction =>
      cases statement with
      | assign index value => exact induction _
      | _ => exact induction bindings

theorem value_run_append (bindings : Bindings K) (first second : List (Statement K)) :
    (run name scale origin bindings (first ++ second)).value =
      (run name scale origin bindings first).value ++
        (run name scale origin (boundAfter name bindings first) second).value := by
  simp [run_append]

theorem value_run_singleton (bindings : Bindings K) (statement : Statement K) :
    (run name scale origin bindings [statement]).value =
      (statement.primitives name scale origin bindings).value := by
  simp [run]

theorem value_run_assign (bindings : Bindings K) (index : Nat) (value : Expr K)
    (rest : List (Statement K)) :
    (run name scale origin bindings (.assign index value :: rest)).value =
      (run name scale origin ((Statement.assign index value).bind name bindings).value
        rest).value := by
  simp [run, Statement.primitives]

theorem value_run_cons (bindings : Bindings K) {statement : Statement K}
    (draws : statement.assigns = false) (rest : List (Statement K)) :
    (run name scale origin bindings (statement :: rest)).value =
      (statement.primitives name scale origin bindings).value ++
        (run name scale origin bindings rest).value := by
  simp [run, bind_of_draws name bindings draws]

theorem value_run_assignments (bindings : Bindings K) (statements : List (Statement K)) :
    (run name scale origin bindings (assignments statements)).value = [] := by
  induction statements generalizing bindings with
  | nil => rfl
  | cons statement rest induction =>
      cases statement with
      | assign index value =>
          exact (value_run_assign name scale origin bindings index value _).trans
            (induction _)
      | _ => exact induction bindings

/-- Behind the assignments of other statements it is as behind all of them. -/
theorem value_run_assignments_append (bindings : Bindings K)
    (before statements : List (Statement K)) :
    (run name scale origin bindings (assignments before ++ statements)).value =
      (run name scale origin (boundAfter name bindings before) statements).value := by
  rw [value_run_append, value_run_assignments, boundAfter_assignments, List.nil_append]

/-- A run draws what its primitives draw alone. -/
theorem value_run_eq_flatMap (bindings : Bindings K) (statements : List (Statement K)) :
    (run name scale origin bindings statements).value =
      (solos statements).flatMap fun solo =>
        (run name scale origin bindings solo).value := by
  induction statements generalizing bindings with
  | nil => rfl
  | cons statement rest induction =>
      cases statement with
      | assign index value =>
          simp only [solos, List.flatMap_map, value_run_assign, induction]
      | _ =>
          rw [value_run_cons name scale origin bindings rfl, induction]
          simp [solos, value_run_singleton]

theorem length_primitives_le (bindings : Bindings K) (statement : Statement K) :
    (statement.primitives name scale origin bindings).value.length ≤ 1 := by
  cases statement with
  | draw exposure figure =>
      simp only [Statement.primitives]
      split <;> simp
  | _ => exact Nat.zero_le 1

theorem length_run_solo_le (bindings : Bindings K) {statements solo : List (Statement K)}
    (member : solo ∈ solos statements) :
    (run name scale origin bindings solo).value.length ≤ 1 := by
  induction statements generalizing bindings solo with
  | nil => cases member
  | cons statement rest induction =>
      cases statement with
      | assign index value =>
          rcases List.mem_map.mp member with ⟨others, isSolo, rfl⟩
          rw [value_run_assign]
          exact induction _ isSolo
      | _ =>
          rcases List.mem_cons.mp member with rfl | later
          · rw [value_run_singleton]
            exact length_primitives_le name scale origin bindings _
          · exact induction bindings later

end Runs

/-! ## Flashes -/

theorem Local.IsSolid.place {drawn : Local ℝ} (solid : drawn.IsSolid) {scale : ℝ}
    (positive : 0 < scale) (origin : Point ℝ) : (drawn.place scale origin).HasExtent := by
  cases drawn with
  | circle center radius =>
      have extent : 0 < radius := by rwa [Local.IsSolid, Exact.zero_eq] at solid
      exact mul_pos extent positive
  | polygon contour =>
      change 3 ≤ (contour.map (Local.place.moved scale origin)).length
      rwa [List.length_map]

theorem hasExtent_of_mem_primitives {name : Text} {scale : ℝ} (positive : 0 < scale)
    {origin : Point ℝ} {bindings : Bindings ℝ} {statement : Statement ℝ}
    {primitive : Path.Primitive ℝ}
    (member : primitive ∈ (statement.primitives name scale origin bindings).value) :
    primitive.HasExtent := by
  cases statement with
  | draw exposure figure =>
      simp only [Statement.primitives] at member
      split at member
      · rename_i drawn evaluated
        rcases List.mem_singleton.mp member with rfl
        simp only [evalPrimitive, Option.bind_eq_bind,
          Option.bind_eq_some_iff] at evaluated
        rcases evaluated with ⟨value, -, on⟩
        split at on
        · cases on
        · exact (Figure.isSolid_of_eval on).place positive origin
      · cases member
      · cases member
  | _ => cases member

theorem hasExtent_of_mem_run {name : Text} {scale : ℝ} (positive : 0 < scale)
    {origin : Point ℝ} {bindings : Bindings ℝ} {statements : List (Statement ℝ)}
    {primitive : Path.Primitive ℝ}
    (member : primitive ∈ (run name scale origin bindings statements).value) :
    primitive.HasExtent := by
  induction statements generalizing bindings with
  | nil => cases member
  | cons statement rest induction =>
      simp only [run, Noted.value_bind, Noted.value_pure, List.mem_append] at member
      rcases member with here | later
      · exact hasExtent_of_mem_primitives positive here
      · exact induction later

/-- A flash draws, in order, what each primitive draws behind the assignments in front of
it: at most one primitive, which has an extent if the scale is positive. A primitive that
is put in somewhere adds what it draws there alone, which is nothing if it is idle; on the
other side of primitives around it it adds the same, and nothing else changes. -/
theorem primitives_stand_alone (template : Template K) (parameters : List K) (scale : K)
    (origin : Point K) :
    let drawn (statements : List (Statement K)) :=
      (flash ⟨template.name, statements⟩ parameters scale origin).value
    drawn template.statements = (solos template.statements).flatMap drawn ∧
      (∀ solo ∈ solos template.statements, (drawn solo).length ≤ 1) ∧
      (∀ (exact : Template ℝ) (parameters : List ℝ) (scale : ℝ) (origin : Point ℝ),
        0 < scale →
        ∀ primitive ∈ (flash exact parameters scale origin).value, primitive.HasExtent) ∧
      ∀ (before among after : List (Statement K)) (primitive : Statement K),
        primitive.assigns = false → (∀ other ∈ among, other.assigns = false) →
          let own := drawn (assignments before ++ [primitive])
          let first := drawn before
          let between := drawn (assignments before ++ among)
          let last := drawn (assignments before ++ after)
          (own = [] ↔
            primitive.Idle (boundAfter template.name (.ofList parameters) before)) ∧
            drawn (before ++ (among ++ after)) = first ++ (between ++ last) ∧
            drawn (before ++ primitive :: (among ++ after)) =
            first ++ (own ++ (between ++ last)) ∧
            drawn (before ++ (among ++ primitive :: after)) =
              first ++ (between ++ (own ++ last)) := by
  intro drawn
  refine ⟨value_run_eq_flatMap _ _ _ _ _, fun solo isSolo =>
    length_run_solo_le _ _ _ _ isSolo,
    fun _ _ _ _ positive _ member => hasExtent_of_mem_run positive member, ?_⟩
  intro before among after primitive draws draw
  let bound := boundAfter template.name (.ofList parameters) before
  have behind
      (statements : List (Statement K)) : drawn (assignments before ++ statements) =
      (run template.name scale origin bound statements).value :=
    value_run_assignments_append _ _ _ _ _ _
  have cut (statements : List (Statement K)) : drawn (before ++ statements) =
      drawn before ++ (run template.name scale origin bound statements).value :=
    value_run_append _ _ _ _ _ _
  have passed (statements : List (Statement K)) :
      (run template.name scale origin bound (among ++ statements)).value =
        (run template.name scale origin bound among).value ++
          (run template.name scale origin bound statements).value := by
    rw [value_run_append, boundAfter_of_draws _ _ draw]
  have own : (run template.name scale origin bound [primitive]).value =
      (primitive.primitives template.name scale origin bound).value :=
    value_run_singleton _ _ _ _ _
  refine ⟨?_, ?_, ?_, ?_⟩
  · rw [behind, own]
    exact Statement.primitives_eq_nil_iff draws _ _ _
  · rw [cut, passed, behind, behind]
  · rw [cut, value_run_cons _ _ _ _ draws, passed, behind, behind, behind, own]
  · rw [cut, passed, value_run_cons _ _ _ _ draws, behind, behind, behind, own]

/-- The second circle of the macro is idle, since its diameter has no value. The first one
is drawn without it as well. -/
theorem primitives_stand_alone_twoDots :
    let drawn (statements : List (Statement Float)) :=
      (flash ⟨twoDots.name, statements⟩ [2.0] 1.0 .origin).value
    let before := twoDots.statements.take 2
    let idle : Statement Float := .draw (.literal 1.0) (dot 3)
    let other : Statement Float := .draw (.literal 1.0) (dot 2)
    idle.Idle (boundAfter twoDots.name (.ofList [2.0]) before) ∧
      drawn (assignments before ++ [idle]) = [] ∧
      drawn (before ++ idle :: [other]) = drawn (before ++ [other]) ∧
      (drawn (before ++ [other])).length = 1 := by
  intro drawn before idle other
  have unbound : boundAfter twoDots.name (.ofList [2.0]) before 3 = none := by
    decide +kernel
  have isField : Expr.var 3 ∈ (dot 3).fields := by simp [dot, Figure.fields]
  have isIdle : idle.Idle (boundAfter twoDots.name (.ofList [2.0]) before) :=
    .unresolved (List.mem_cons_of_mem _ isField)
      (Expr.eval_eq_none_of_unbound unbound (by simp [Expr.indices]))
  have inserted :=
      (primitives_stand_alone twoDots [2.0] 1.0 .origin).2.2.2 before [other] [] idle
    rfl (by simp [other, Statement.assigns])
  have nothing := inserted.1.mpr isIdle
  refine ⟨isIdle, nothing, ?_, by decide +kernel⟩
  have without := inserted.2.1
  have within := inserted.2.2.1
  rw [nothing, List.nil_append, ← without] at within
  exact within

end Template

end Photoplot
