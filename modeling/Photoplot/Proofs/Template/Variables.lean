import Photoplot.Proofs.Template.Evaluation
import Photoplot.Template.Flash

/-! # Variables of aperture macros

What the variables are bound to where a flash has come to a statement. The latest
assignment decides, if it has a value. One without a value changes nothing, so that
the variable keeps what an earlier assignment or a parameter has given it, although
it is reported to be left unbound. -/

namespace Photoplot

namespace Template

variable {K : Type}

/-! ## Fields of a figure -/

def Figure.fields : Figure K → List (Expr K)
  | circle diameter center rotation => [diameter, center.1, center.2] ++ rotation.toList
  | line width start finish rotation =>
      [width, start.1, start.2, finish.1, finish.2, rotation]
  | rectangle width height center rotation =>
      [width, height, center.1, center.2, rotation]
  | outline vertices rotation =>
      (vertices.flatMap fun vertex => [vertex.1, vertex.2]) ++ [rotation]
  | polygon vertices center diameter rotation =>
      [vertices, center.1, center.2, diameter, rotation]

variable [PlaneScalar K] {bindings : Bindings K}

theorem mapM_evalPair_eq_none {vertices : List (ExprPair K)} {vertex : ExprPair K}
    (member : vertex ∈ vertices) (unresolved : evalPair bindings vertex = none) :
    vertices.mapM (evalPair bindings) = none := by
  induction vertices with
  | nil => cases member
  | cons first rest induction =>
      rcases List.mem_cons.mp member with rfl | member
      · simp [unresolved]
      · simp [induction member]

/-- A figure is evaluated as a whole or not at all. -/
theorem Figure.eval_eq_none {figure : Figure K} {field : Expr K}
    (member : field ∈ figure.fields)
    (unresolved : field.eval bindings = none) : figure.eval bindings = none := by
  cases figure with
  | circle diameter center rotation =>
      cases rotation with
      | none =>
          simp only [fields, Option.toList_none, List.cons_append, List.nil_append,
            List.mem_cons, List.not_mem_nil, or_false] at member
          rcases member with rfl | rfl | rfl <;> simp [eval, evalPair, unresolved]
      | some rotation =>
          simp only [fields, Option.toList_some, List.cons_append, List.nil_append,
            List.mem_cons, List.not_mem_nil, or_false] at member
          rcases member with rfl | rfl | rfl | rfl <;> simp [eval, evalPair, unresolved]
  | line width start finish rotation =>
      simp only [fields, List.mem_cons, List.not_mem_nil, or_false] at member
      rcases member with rfl | rfl | rfl | rfl | rfl | rfl <;>
        simp [eval, evalPair, unresolved]
  | rectangle width height center rotation =>
      simp only [fields, List.mem_cons, List.not_mem_nil, or_false] at member
      rcases member with rfl | rfl | rfl | rfl | rfl <;> simp [eval, evalPair, unresolved]
  | outline vertices rotation =>
      simp only [fields, List.mem_append, List.mem_flatMap, List.mem_cons,
        List.not_mem_nil, or_false] at member
      rcases member with ⟨vertex, isVertex, side⟩ | rfl
      · have unplaced : evalPair bindings vertex = none := by
          rcases side with rfl | rfl <;> simp [evalPair, unresolved]
        simp [eval, mapM_evalPair_eq_none isVertex unplaced]
      · simp [eval, unresolved]
  | polygon vertices center diameter rotation =>
      simp only [fields, List.mem_cons, List.not_mem_nil, or_false] at member
      rcases member with rfl | rfl | rfl | rfl | rfl <;> simp [eval, evalPair, unresolved]

/-! ## Bindings along a macro -/

def boundAfter (name : Text) (bindings : Bindings K) (statements : List (Statement K)) :
    Bindings K :=
  statements.foldl (fun bindings statement =>
    (statement.bind name bindings).value) bindings

/-- The latest assignment to a variable: the statements in front of it, and what it
assigns. -/
def latest? (index : Nat) : List (Statement K) → Option (List (Statement K) × Expr K)
  | [] => none
  | statement :: rest =>
      match latest? index rest with
      | some (earlier, value) => some (statement :: earlier, value)
      | none =>
          match statement with
          | .assign assigned value => if assigned = index then some ([], value) else none
          | _ => none

example (first second third : Expr K) :
    latest? 1 [.assign 1 first, .assign 2 second, .assign 1 third, .unsupported 7] =
      some ([.assign 1 first, .assign 2 second], third) := rfl

/-- What a variable means by its latest assignment alone: nothing, if that has no
value. A variable that is not assigned is a parameter. -/
def declared (name : Text) (parameters : List K) (statements : List (Statement K))
    (index : Nat) : Option K :=
  match latest? index statements with
  | some (earlier, value) => value.eval (boundAfter name (.ofList parameters) earlier)
  | none => if index = 0 then none else parameters[index - 1]?

theorem bind_assign (name : Text) (bindings : Bindings K)
    (assigned : Nat) (value : Expr K) (index : Nat) :
    ((Statement.assign assigned value).bind name bindings).value index =
      if assigned = index then (value.eval bindings).or (bindings index)
      else bindings index := by
  cases evaluated : value.eval bindings with
  | none => simp [Statement.bind, evaluated]
  | some result => simp [Statement.bind, evaluated, Bindings.assign, eq_comm]

/-- A variable has the value of its latest assignment or, without one, what it had in
front of that. -/
theorem boundAfter_eq (name : Text) (bindings : Bindings K)
    (statements : List (Statement K)) (index : Nat) :
    boundAfter name bindings statements index =
      match latest? index statements with
      | some (earlier, value) =>
          (value.eval (boundAfter name bindings earlier)).or
            (boundAfter name bindings earlier index)
      | none => bindings index := by
  induction statements generalizing bindings with
  | nil => rfl
  | cons statement rest induction =>
      have next : boundAfter name bindings (statement :: rest) =
          boundAfter name (statement.bind name bindings).value rest := rfl
      rw [next, induction]
      cases later : latest? index rest with
      | some latest => simp [latest?, later, boundAfter]
      | none =>
          cases statement with
          | assign assigned value =>
              rw [bind_assign]
              by_cases same : assigned = index <;> simp [latest?, later, same, boundAfter]
          | draw exposure figure => simp [latest?, later, Statement.bind]
          | unsupported code => simp [latest?, later, Statement.bind]

theorem run_append (name : Text) (scale : K) (origin : Point K) (bindings : Bindings K)
    (first second : List (Statement K)) :
    run name scale origin bindings (first ++ second) = do
      let drawn ← run name scale origin bindings first
      let others ← run name scale origin (boundAfter name bindings first) second
      return drawn ++ others := by
  induction first generalizing bindings with
  | nil => ext1 <;> simp [run, boundAfter]
  | cons statement rest induction =>
      ext1 <;> simp [run, induction, boundAfter]

/-! ## Dropped primitives -/

/-- A primitive of which some field has no value leaves nothing but a note, and not even
that if it is off. -/
theorem primitives_of_unresolved (name : Text) (scale : K) (origin : Point K)
    {exposure field : Expr K} {figure : Figure K}
    (member : field ∈ exposure :: figure.fields)
    (unresolved : field.eval bindings = none) :
    (Statement.draw exposure figure).primitives name scale origin bindings =
      if (exposure.eval bindings).any fun value => decide (value < 0.5) then return []
      else do
        Noted.note (.primitiveUnresolved name)
        return [] := by
  cases evaluated : exposure.eval bindings with
  | none => simp [Statement.primitives, evalPrimitive, evaluated]
  | some value =>
      have isFigure : field ∈ figure.fields := by
        rcases List.mem_cons.mp member with rfl | isFigure
        · rw [unresolved] at evaluated
          cases evaluated
        · exact isFigure
      have without := Figure.eval_eq_none isFigure unresolved
      by_cases off : value < 0.5 <;>
        simp [Statement.primitives, evalPrimitive, evaluated, without, off]

/-- Where a flash has come to a statement, a variable has the value of its latest
assignment; if that has none, the variable is as it was in front of it. So the latest
assignment alone tells what a variable is bound to exactly if the assignments without a
value are to variables that are not bound. A primitive that uses a variable without a
binding is dropped, with a note unless it is off. -/
theorem bound_by_latest {template : Template K} {before after : List (Statement K)}
    {statement : Statement K}
    (reached : template.statements = before ++ statement :: after)
    (parameters : List K) (scale : K) (origin : Point K) :
    let bound := boundAfter template.name (.ofList parameters)
    flash template parameters scale origin = (do
        let drawn ← run template.name scale origin (.ofList parameters) before
        let next ← statement.bind template.name (bound before)
        let here ← statement.primitives template.name scale origin (bound before)
        let others ← run template.name scale origin next after
        return drawn ++ (here ++ others)) ∧
      (∀ index, bound before index =
        match latest? index before with
        | some (earlier, value) => (value.eval (bound earlier)).or (bound earlier index)
        | none => if index = 0 then none else parameters[index - 1]?) ∧
      (∀ index, bound before index = declared template.name parameters before index ↔
        ∀ earlier value, latest? index before = some (earlier, value) →
          value.eval (bound earlier) = none → bound earlier index = none) ∧
      ∀ exposure figure, statement = .draw exposure figure →
        ∀ field ∈ exposure :: figure.fields, ∀ index ∈ field.indices,
          bound before index = none →
            statement.primitives template.name scale origin (bound before) =
              if (exposure.eval (bound before)).any fun value => decide (value < 0.5) then
                return []
              else do
                Noted.note (.primitiveUnresolved template.name)
                return [] := by
  intro bound
  have parameter (index : Nat) : Bindings.ofList parameters index =
      if index = 0 then none else parameters[index - 1]? := by
    cases index <;> rfl
  have latest (index : Nat) : bound before index =
      match latest? index before with
      | some (earlier, value) => (value.eval (bound earlier)).or (bound earlier index)
      | none => if index = 0 then none else parameters[index - 1]? := by
    rw [← parameter]
    exact boundAfter_eq template.name _ before index
  refine ⟨?statements, latest, ?declared, ?dropped⟩
  case statements =>
    rw [flash, reached, run_append]
    ext1 <;> simp [run, bound]
  case declared =>
    intro index
    rw [latest, declared]
    cases found : latest? index before with
    | none => simp
    | some assignment =>
        rcases assignment with ⟨earlier, value⟩
        cases evaluated : value.eval (bound earlier) with
        | none => simp [bound, evaluated]
        | some result => simp [bound, evaluated]
  case dropped =>
    rintro exposure figure rfl field member index used unbound
    exact primitives_of_unresolved _ _ _ member
      (Expr.eval_eq_none_of_unbound unbound used)

def dot (index : Nat) : Figure Float :=
  .circle (.var index) (.literal 0.0, .literal 0.0) none

/-- The third variable gets no value, since one divides by zero. -/
def twoDots : Template Float :=
  ⟨"DOTS".toList,
    [.assign 2 (.mul (.var 1) (.literal 3.0)),
     .assign 3 (.div (.var 2) (.sub (.var 1) (.var 1))),
     .draw (.literal 1.0) (dot 2),
     .draw (.literal 1.0) (dot 3)]⟩

/-- The third variable was not bound before either, so that the second circle is
dropped. -/
theorem bound_by_latest_twoDots :
    let bound := boundAfter twoDots.name (.ofList [2.0])
    let before := twoDots.statements.take 3
    let circle : Statement Float := .draw (.literal 1.0) (dot 3)
    twoDots.statements = before ++ circle :: [] ∧
      bound before 2 = some 6.0 ∧
      (Expr.var 3 ∈ (dot 3).fields ∧ 3 ∈ (Expr.var 3 : Expr Float).indices ∧
        bound before 3 = none) ∧
      bound before 3 = declared twoDots.name [2.0] before 3 ∧
      circle.primitives twoDots.name 1.0 .origin (bound before) = (do
        Noted.note (.primitiveUnresolved twoDots.name)
        return []) := by
  intro bound before circle
  have reached : twoDots.statements = before ++ circle :: [] := rfl
  have facts := bound_by_latest reached [2.0] 1.0 .origin
  have tripled : bound before 2 = some 6.0 := by decide +kernel
  have unbound : bound before 3 = none := by decide +kernel
  have on : ((Expr.literal 1.0 : Expr Float).eval (bound before)).any
      (fun value => decide (value < 0.5)) = false := by decide +kernel
  have dropped :=
      facts.2.2.2 (.literal 1.0) (dot 3) rfl (.var 3) (by simp [dot, Figure.fields])
    3 (by simp [Expr.indices]) unbound
  refine ⟨reached, tripled,
    ⟨by simp [dot, Figure.fields], by simp [Expr.indices], unbound⟩,
    (facts.2.2.1 3).mpr ?_, ?_⟩
  · intro earlier value latest _
    have cut : latest? 3 before =
        some ([.assign 2 (.mul (.var 1) (.literal 3.0))],
          .div (.var 2) (.sub (.var 1) (.var 1))) := by decide +kernel
    rw [cut, Option.some_inj, Prod.mk.injEq] at latest
    rw [← latest.1]
    decide +kernel
  · rw [dropped, on]
    rfl

/-- An assignment that fails leaves a parameter as it was, and the primitive that uses
it is drawn. -/
theorem not_forall_bound_eq_declared :
    (¬∀ (name : Text) (parameters : List Float) (before : List (Statement Float))
      (index : Nat),
        boundAfter name (.ofList parameters) before index =
          declared name parameters before index) ∧
      ¬∀ (template : Template Float) (parameters : List Float)
        (before after : List (Statement Float)) (exposure : Expr Float)
        (figure : Figure Float),
        template.statements = before ++ .draw exposure figure :: after →
          ∀ field ∈ exposure :: figure.fields, ∀ index ∈ field.indices,
            declared template.name parameters before index = none →
              (flash template parameters 1.0 .origin).value =
                (flash ⟨template.name, before ++ after⟩ parameters
                  1.0 .origin).value := by
  let failing : Statement Float := .assign 1 (.div (.literal 1.0) (.literal 0.0))
  have undeclared : declared "DOT".toList [5.0] [failing] 1 = none := by decide +kernel
  constructor
  · intro all
    have kept := (all "DOT".toList [5.0] [failing] 1).trans undeclared
    revert kept
    decide +kernel
  · intro all
    have dropped :=
        all ⟨"DOT".toList, [failing, .draw (.literal 1.0) (dot 1)]⟩ [5.0] [failing]
      [] (.literal 1.0) (dot 1) rfl (.var 1) (by simp [dot, Figure.fields]) 1
      (by simp [Expr.indices]) undeclared
    revert dropped
    decide +kernel

end Template

end Photoplot
