import Photoplot.Proofs.Clearance.Thinning
import Photoplot.Proofs.Layer.Bounds

/-! # Clearances and their kernel

A kernel may be any function from a plate and traces to shapes, an error or a crash.
It is asked once at most, and only about usable geometry; what comes back is either
made of its shapes or the traces as they were. -/

namespace Photoplot.Clearance

variable {K : Type}

/-! ## Questions -/

structure Query (K : Type) where
  plate : List (Shape K)
  traces : List (Shape K)
  deriving DecidableEq, Repr

def Request.query [Scalar K] (request : Request K) : Query K :=
  ⟨request.plate.shapes request.margin, request.traces⟩

def FiniteShapes [Scalar K] (shapes : List (Shape K)) : Prop :=
  ∀ shape ∈ shapes, ∀ contour ∈ shape, ∀ point ∈ contour, point.IsFinite = true

structure Request.Usable [Scalar K] (request : Request K) : Prop where
  traced : ∃ trace ∈ request.traces, ∃ contour ∈ trace, contour ≠ []
  finiteTraces : FiniteShapes request.traces
  plated : request.plate.shapes request.margin ≠ []
  finitePlate : FiniteShapes (request.plate.shapes request.margin)

theorem allFinite_iff [Scalar K] (shapes : List (Shape K)) :
    allFinite shapes = true ↔ FiniteShapes shapes := by
  simp only [allFinite, FiniteShapes, List.all_eq_true, List.mem_flatten]
  constructor
  · intro all shape isShape contour isContour point isPoint
    exact all point ⟨contour, ⟨shape, isShape, isContour⟩, isPoint⟩
  · rintro all point ⟨contour, ⟨shape, isShape, isContour⟩, isPoint⟩
    exact all shape isShape contour isContour point isPoint

theorem refusal?_eq_none_iff [Scalar K] (request : Request K) :
    refusal? request = none ↔ request.Usable := by
  have traced : request.traces.flatten.all List.isEmpty = false ↔
      ∃ trace ∈ request.traces, ∃ contour ∈ trace, contour ≠ [] := by
    simp only [List.all_eq_false, List.mem_flatten, List.isEmpty_iff]
    constructor
    · rintro ⟨contour, ⟨trace, isTrace, isContour⟩, filled⟩
      exact ⟨trace, isTrace, contour, isContour, filled⟩
    · rintro ⟨trace, isTrace, contour, isContour, filled⟩
      exact ⟨contour, ⟨trace, isTrace, isContour⟩, filled⟩
  have plated : (request.plate.shapes request.margin).isEmpty = false ↔
      request.plate.shapes request.margin ≠ [] := List.isEmpty_eq_false_iff
  constructor
  · intro asked
    simp only [refusal?] at asked
    split at asked
    · cases asked
    rename_i someTrace
    split at asked
    · cases asked
    rename_i someFinite
    split at asked
    · cases asked
    rename_i somePlate
    simp only [Bool.or_eq_true, Bool.not_eq_true', not_or, Bool.not_eq_false,
      Bool.not_eq_true] at someTrace someFinite somePlate
    exact ⟨traced.mp someTrace, (allFinite_iff _).mp someFinite, plated.mp somePlate.1,
      (allFinite_iff _).mp somePlate.2⟩
  · intro usable
    simp [refusal?, traced.mpr usable.traced, (allFinite_iff _).mpr usable.finiteTraces,
      plated.mpr usable.plated, (allFinite_iff _).mpr usable.finitePlate]

instance [Scalar K] (request : Request K) : Decidable request.Usable :=
  decidable_of_iff _ (refusal?_eq_none_iff request)

/-! ## Kernels with effects -/

variable [PlaneScalar K]

def conclude (request : Request K) : Except Warning (List (Shape K)) → Noted (Result K)
  | .error warning => ⟨unchanged request.traces, [warning]⟩
  | .ok shapes => ⟨⟨shapes, .ofShapes shapes, true⟩, []⟩

/-- The clearance with a kernel whose answers may come with effects. -/
def computeIn {m : Type → Type} [Monad m]
    (ask : Query K → m (Except CutFailure (List (Shape K)))) (request : Request K) :
    m (Noted (Result K)) :=
  match refusal? request with
  | some warning => return conclude request (.error warning)
  | none => do return conclude request (settle (← ask request.query))

/-- Without effects this is the clearance. -/
theorem computeIn_id (cutter : Cutter K) (request : Request K) :
    computeIn (m := Id) (fun query => cutter query.plate query.traces) request =
      compute cutter request := by
  unfold computeIn compute
  cases refusal? request with
  | some warning => rfl
  | none =>
      have answered : ∀ outcome : Except Warning (List (Shape K)),
          conclude request outcome = (match outcome with
            | .error warning => do
                Noted.note warning
                return unchanged request.traces
            | .ok shapes => return ⟨shapes, .ofShapes shapes, true⟩) := by
        intro outcome
        cases outcome <;> rfl
      exact answered _

def recording (cutter : Cutter K) (query : Query K) :
    StateM (List (Query K)) (Except CutFailure (List (Shape K))) := do
  modify fun asked => asked ++ [query]
  return cutter query.plate query.traces

/-- The kernel is asked about usable requests, once. -/
theorem run_computeIn_recording (cutter : Cutter K) (request : Request K)
    (asked : List (Query K)) :
    (computeIn (recording cutter) request).run asked =
      (compute cutter request, if request.Usable then asked ++ [request.query]
        else asked) := by
  rw [← computeIn_id]
  unfold computeIn
  cases refused : refusal? request with
  | some warning =>
      have unusable : ¬request.Usable := by
        intro usable
        rw [(refusal?_eq_none_iff request).mpr usable] at refused
        cases refused
      rw [if_neg unusable]
      rfl
  | none =>
      rw [if_pos ((refusal?_eq_none_iff request).mp refused)]
      rfl

/-! ## Results -/

theorem compute_eq (cutter : Cutter K) (request : Request K) :
    compute cutter request = match refusal? request with
      | some warning => conclude request (.error warning)
      | none =>
          conclude request (settle (cutter request.query.plate request.query.traces)) :=
  (computeIn_id cutter request).symm

theorem settle_ok_iff {answer : Except CutFailure (List (Shape K))}
    {shapes : List (Shape K)} :
    settle answer = .ok shapes ↔
      ∃ given, answer = .ok given ∧ simplify given = shapes ∧ shapes ≠ [] := by
  match answer with
  | .error (.error _) => simp [settle]
  | .error .crash => simp [settle]
  | .ok given =>
      simp only [settle]
      split
      · rename_i nothing
        have isNil := List.isEmpty_iff.mp nothing
        constructor
        · intro impossible
          cases impossible
        · rintro ⟨same, isGiven, rfl, some⟩
          rcases Except.ok.inj isGiven with rfl
          exact (some isNil).elim
      · rename_i something
        constructor
        · rintro settled
          rcases Except.ok.inj settled with rfl
          exact ⟨given, rfl, rfl, fun isNil => something (List.isEmpty_iff.mpr isNil)⟩
        · rintro ⟨same, isGiven, rfl, -⟩
          rcases Except.ok.inj isGiven with rfl
          rfl

def Accepted (cutter : Cutter K) (request : Request K) (given : List (Shape K)) : Prop :=
  request.Usable ∧ cutter request.query.plate request.query.traces = .ok given ∧
    simplify given ≠ []

theorem compute_cases (cutter : Cutter K) (request : Request K) :
    ((∀ given, ¬Accepted cutter request given) ∧
        (compute cutter request).value = unchanged request.traces) ∨
      ∃ given, Accepted cutter request given ∧
        (compute cutter request).value =
        ⟨simplify given, .ofShapes (simplify given), true⟩ := by
  rw [compute_eq]
  cases refused : refusal? request with
  | some warning =>
      refine .inl ⟨?_, rfl⟩
      rintro given ⟨usable, -⟩
      rw [(refusal?_eq_none_iff request).mpr usable] at refused
      cases refused
  | none =>
      cases settled : settle (cutter request.query.plate request.query.traces) with
      | error warning =>
          refine .inl ⟨?_, rfl⟩
          rintro given ⟨-, answered, some⟩
          have accepted := settle_ok_iff.mpr ⟨given, answered, rfl, some⟩
          rw [settled] at accepted
          cases accepted
      | ok shapes =>
          rcases settle_ok_iff.mp settled with ⟨given, answered, rfl, some⟩
          exact .inr ⟨given, ⟨(refusal?_eq_none_iff request).mp refused, answered, some⟩,
            rfl⟩

structure Cleared (given : List (Shape K)) (result : Result K) : Prop where
  shapes_ne_nil : result.shapes ≠ []
  shape_ne_nil : ∀ shape ∈ result.shapes, shape ≠ []
  enough : ∀ shape ∈ result.shapes, ∀ contour ∈ shape, 3 ≤ contour.length
  apart : ∀ shape ∈ result.shapes, ∀ contour ∈ shape, ∀ edge ∈ contour.edges,
    Apart edge.1 edge.2
  sources : ∃ sources, sources.Sublist given ∧
    List.Forall₂ ShapeThinned sources result.shapes
  box : result.box = .ofShapes result.shapes

theorem ShapeThinned.ne_nil {given kept : Shape K} (thinned : ShapeThinned given kept) :
    kept ≠ [] := by
  rcases thinned with ⟨isOuter, among, areHoles⟩
  exact List.cons_ne_nil _ _

theorem ShapeThinned.thinned {given kept : Shape K} (thinned : ShapeThinned given kept) :
    ∀ contour ∈ kept, ∃ source, Thinned source contour := by
  rcases thinned with ⟨isOuter, among, areHoles⟩
  intro contour member
  rcases List.mem_cons.mp member with rfl | isHole
  · exact ⟨_, isOuter⟩
  · clear among member
    induction areHoles with
    | nil => cases isHole
    | @cons source kept sources others related _ induction =>
        rcases List.mem_cons.mp isHole with rfl | later
        · exact ⟨source, related⟩
        · exact induction later

theorem cleared_simplify [Scalar.Ordered K] (comparable : (tolerance : K) ≤ tolerance)
    {given : List (Shape K)} (some : simplify given ≠ []) :
    Cleared given ⟨simplify given, .ofShapes (simplify given), true⟩ := by
  rcases shapesThinned_simplify comparable given with ⟨sources, among, thinned⟩
  have each : ∀ shape ∈ simplify given, ∃ source, ShapeThinned source shape := by
    intro shape isShape
    rcases List.mem_filterMap.mp isShape with ⟨source, -, simplified⟩
    exact ⟨source, shapeThinned_simplifyShape comparable simplified⟩
  refine ⟨some, ?_, ?_, ?_, ⟨sources, among, thinned⟩, rfl⟩
  · intro shape isShape
    rcases each shape isShape with ⟨source, thinned⟩
    exact thinned.ne_nil
  · intro shape isShape contour isContour
    rcases each shape isShape with ⟨source, thinned⟩
    rcases thinned.thinned contour isContour with ⟨original, kept⟩
    exact kept.enough
  · intro shape isShape contour isContour
    rcases each shape isShape with ⟨source, thinned⟩
    rcases thinned.thinned contour isContour with ⟨original, kept⟩
    exact kept.apart

/-- For every kernel: it is asked once about usable requests and never about others.
A clearance comes back if it gives shapes of which some are left, and the traces come
back as they were if not. Vertices of a clearance are apart as far as their distance
can be compared. -/
theorem compute_cleared_or_unchanged (cutter : Cutter Float) (request : Request Float) :
    let result := (compute cutter request).value
    let answer := cutter (request.plate.shapes request.margin) request.traces
    (computeIn (recording cutter) request).run [] =
        (compute cutter request,
          if request.Usable then [⟨request.plate.shapes request.margin, request.traces⟩]
          else []) ∧
      (result.inverted = true ↔
        request.Usable ∧ ∃ given, answer = .ok given ∧ simplify given ≠ []) ∧
      (result.inverted = true → ∃ given, answer = .ok given ∧ Cleared given result) ∧
      (result.inverted = false → result = unchanged request.traces) := by
  have comparable : (tolerance : Float) ≤ tolerance := by decide +kernel
  refine ⟨run_computeIn_recording cutter request [], ?_⟩
  rcases compute_cases cutter request with
    ⟨refused, same⟩ | ⟨given, ⟨usable, answered, some⟩, cleared⟩
  · simp only [same]
    refine ⟨⟨fun inverted => ?_, ?_⟩, fun inverted => ?_, fun _ => trivial⟩
    · cases inverted
    · rintro ⟨usable, given, answered, some⟩
      exact (refused given ⟨usable, answered, some⟩).elim
    · cases inverted
  · simp only [cleared]
    refine ⟨⟨fun _ => ⟨usable, given, answered, some⟩, fun _ => trivial⟩, fun _ => ?_,
      fun inverted => ?_⟩
    · exact ⟨given, answered, cleared_simplify comparable some⟩
    · cases inverted

/-- A kernel whose answer lies at infinity, where no distance can be measured. -/
def boundless : Cutter Float := fun _ _ =>
  .ok [[[⟨Binary64.infinity, 0.0⟩, ⟨Binary64.infinity, 0.0⟩, ⟨Binary64.infinity, 0.0⟩]]]

def unitSquare : Request Float :=
  .around [[[⟨0.0, 0.0⟩, ⟨1.0, 0.0⟩, ⟨1.0, 1.0⟩, ⟨0.0, 1.0⟩]]] 1.0

/-- The vertices of a clearance can all be the same. -/
theorem not_forall_tolerance_le :
    ¬∀ (cutter : Cutter Float) (request : Request Float),
      (compute cutter request).value.inverted = true →
        ∀ shape ∈ (compute cutter request).value.shapes, ∀ contour ∈ shape,
          ∀ edge ∈ Contour.edges contour, tolerance ≤ edge.2.distance edge.1 := by
  intro all
  have far := all boundless unitSquare (by decide +kernel)
  revert far
  decide +kernel

end Photoplot.Clearance
