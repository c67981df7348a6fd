import Photoplot.Proofs.Layer.Grammar
import Photoplot.Proofs.Scalar.Order

/-! # Thinned contours

What simplification leaves of the shapes of a kernel: which vertices stay, how far
they are apart, and which contour every contour comes from. -/

namespace Photoplot

namespace Contour

/-- What holds of all edges holds along the chain of vertices that comes back to the
first one. -/
theorem forall_edges_cons {α : Type} {Apart : Point α → Point α → Prop} (first : Point α)
    (rest : List (Point α)) :
    (∀ edge ∈ edges (first :: rest), Apart edge.1 edge.2) ↔
      (first :: rest ++ [first]).IsChain Apart := by
  have along : ∀ (start : Point α) (chain : List (Point α)) (finish : Point α),
      (∀ edge ∈ (start :: chain).zip (chain ++ [finish]), Apart edge.1 edge.2) ↔
        (start :: chain ++ [finish]).IsChain Apart := by
    intro start chain finish
    induction chain generalizing start with
    | nil => simp
    | cons second chain induction =>
        have next := induction second
        simp only [List.cons_append] at next
        simp only [List.cons_append, List.zip_cons_cons, List.forall_mem_cons,
          List.isChain_cons_cons, next]
  exact along first rest first

end Contour

namespace Clearance

variable {K : Type} [PlaneScalar K]

/-- The second vertex was not found to be near the first one: it is at least the
tolerance away, or their distance is not comparable. -/
def Apart (first second : Point K) : Prop :=
  tolerance ≤ second.distance first ∨ ¬second.distance first ≤ second.distance first

theorem apart_of_not_near [Scalar.Ordered K] (comparable : (tolerance : K) ≤ tolerance)
    {first second : Point K} (notNear : near second first = false) :
    Apart first second := by
  by_cases measured : second.distance first ≤ second.distance first
  · exact .inl
      (Scalar.Ordered.le_of_not_lt measured comparable (of_decide_eq_false notNear))
  · exact .inr measured

/-! ## Vertices -/

theorem thinAfter_sublist (last : Point K) (points : List (Point K)) :
    (thinAfter last points).Sublist points := by
  induction points generalizing last with
  | nil => exact .slnil
  | cons point rest induction =>
      rw [thinAfter]
      split
      · exact (induction last).cons point
      · exact (induction point).cons_cons point

theorem isChain_thinAfter (last : Point K) (points : List (Point K)) :
    (last :: thinAfter last points).IsChain fun first second =>
      near second first = false := by
  induction points generalizing last with
  | nil => exact .singleton last
  | cons point rest induction =>
      rw [thinAfter]
      split
      · exact induction last
      · rename_i notNear
        exact .cons_cons (Bool.eq_false_of_not_eq_true notNear) (induction point)

def trimEnd (first : Point K) (points : List (Point K)) : List (Point K) :=
  (points.reverse.dropWhile fun last => near first last).reverse

/-- The end that is taken off is near the first vertex. -/
theorem exists_trimEnd_append (first : Point K) (points : List (Point K)) :
    ∃ rest,
      trimEnd first points ++ rest = points ∧ ∀ last ∈ rest, near first last = true := by
  refine ⟨(points.reverse.takeWhile fun last => near first last).reverse, ?_, ?_⟩
  · rw [trimEnd, ← List.reverse_append, List.takeWhile_append_dropWhile,
      List.reverse_reverse]
  · intro last taken
    exact List.mem_takeWhile_imp (List.mem_reverse.mp taken)

/-- The vertex before the first one is not near it. -/
theorem not_near_getLast_trimEnd (first : Point K) (points : List (Point K)) :
    ∀ last ∈ (trimEnd first points).getLast?, near first last = false := by
  intro last isLast
  rw [trimEnd, List.getLast?_reverse] at isLast
  have stopped := List.head?_dropWhile_not (fun last => near first last) points.reverse
  rw [isLast] at stopped
  simpa using stopped

theorem isChain_trimEnd (first : Point K) (points : List (Point K))
    (kept : trimEnd first (thinAfter first points) ≠ []) :
    (first :: trimEnd first (thinAfter first points) ++ [first]).IsChain
      fun first second => near second first = false := by
  have chained : (first :: trimEnd first (thinAfter first points)).IsChain
      fun first second => near second first = false := by
    rcases exists_trimEnd_append first (thinAfter first points) with ⟨rest, whole, -⟩
    have thinned := isChain_thinAfter first points
    rw [← whole] at thinned
    exact List.IsChain.left_of_append thinned
  refine chained.append (.singleton first) ?_
  intro last isLast start isStart
  rcases Option.some.inj isStart with rfl
  apply not_near_getLast_trimEnd first (thinAfter first points)
  rwa [List.getLast?_cons_of_ne_nil kept] at isLast

/-! ## Contours -/

theorem simplifyContour_cons_iff {first : Point K} {rest kept : Contour K} :
    simplifyContour? (first :: rest) = some kept ↔
      first :: trimEnd first (thinAfter first rest) = kept ∧ 3 ≤ kept.length := by
  simp only [simplifyContour?]
  split
  · rename_i enough
    rw [Option.some.injEq]
    constructor
    · rintro rfl
      exact ⟨rfl, enough⟩
    · exact And.left
  · rename_i few
    constructor
    · intro simplified
      cases simplified
    · rintro ⟨rfl, enough⟩
      exact absurd enough few

/-- What is left of a contour goes around from its first vertex without one that is near
the one before it. -/
theorem isChain_simplifyContour {first : Point K} {rest kept : Contour K}
    (simplified : simplifyContour? (first :: rest) = some (first :: kept)) :
    (first :: kept ++ [first]).IsChain fun first second => near second first = false := by
  rcases simplifyContour_cons_iff.mp simplified with ⟨isKept, enough⟩
  rcases List.cons.inj isKept with ⟨-, rfl⟩
  apply isChain_trimEnd
  intro nothing
  simp [nothing] at enough

structure Thinned (given kept : Contour K) : Prop where
  sublist : kept.Sublist given
  head : kept.head? = given.head?
  enough : 3 ≤ kept.length
  apart : ∀ edge ∈ kept.edges, Apart edge.1 edge.2

theorem thinned_simplifyContour [Scalar.Ordered K]
    (comparable : (tolerance : K) ≤ tolerance)
    {given kept : Contour K} (simplified : simplifyContour? given = some kept) :
    Thinned given kept := by
  cases given with
  | nil => cases simplified
  | cons first rest =>
      rcases simplifyContour_cons_iff.mp simplified with ⟨rfl, enough⟩
      refine ⟨?_, rfl, enough, ?_⟩
      · rcases exists_trimEnd_append first (thinAfter first rest) with ⟨others, whole, -⟩
        have trimmed : (trimEnd first (thinAfter first rest)).Sublist rest := by
          have front :=
              List.sublist_append_left (trimEnd first (thinAfter first rest)) others
          rw [whole] at front
          exact front.trans (thinAfter_sublist first rest)
        exact trimmed.cons_cons first
      · refine (Contour.forall_edges_cons first _).mpr ?_
        exact (isChain_simplifyContour simplified).imp fun _ _ notNear =>
          apart_of_not_near comparable notNear

/-! ## Shapes -/

/-- The outer contour comes from the outer contour, and the holes, in order, from
some of the holes. -/
inductive ShapeThinned : Shape K → Shape K → Prop
  | intro {outer kept : Contour K} {holes sources keptHoles : List (Contour K)}
      (isOuter : Thinned outer kept) (among : sources.Sublist holes)
      (areHoles : List.Forall₂ Thinned sources keptHoles) :
      ShapeThinned (outer :: holes) (kept :: keptHoles)

/-- The results of a partial function come from some of the elements. -/
theorem exists_forall₂_filterMap {α : Type} {change? : α → Option α}
    {Related : α → α → Prop}
    (related : ∀ given kept, change? given = some kept → Related given kept)
    (given : List α) :
    ∃ sources,
      sources.Sublist given ∧ List.Forall₂ Related sources (given.filterMap change?) := by
  induction given with
  | nil => exact ⟨[], .slnil, .nil⟩
  | cons first rest induction =>
      rcases induction with ⟨sources, among, all⟩
      cases changed : change? first with
      | none =>
          rw [List.filterMap_cons_none changed]
          exact ⟨sources, among.cons first, all⟩
      | some kept =>
          rw [List.filterMap_cons_some changed]
          exact ⟨first :: sources, among.cons_cons first,
            .cons (related first kept changed) all⟩

theorem shapeThinned_simplifyShape [Scalar.Ordered K]
    (comparable : (tolerance : K) ≤ tolerance)
    {given kept : Shape K} (simplified : simplifyShape? given = some kept) :
    ShapeThinned given kept := by
  cases given with
  | nil => cases simplified
  | cons outer holes =>
      rcases Option.map_eq_some_iff.mp simplified with ⟨keptOuter, isKept, rfl⟩
      have each : ∀ given kept : Contour K, simplifyContour? given = some kept →
          Thinned given kept :=
        fun _ _ simplified => thinned_simplifyContour comparable simplified
      rcases exists_forall₂_filterMap each holes with ⟨sources, among, areHoles⟩
      exact .intro (thinned_simplifyContour comparable isKept) among areHoles

theorem shapesThinned_simplify [Scalar.Ordered K]
    (comparable : (tolerance : K) ≤ tolerance) (given : List (Shape K)) :
    ∃ sources,
      sources.Sublist given ∧ List.Forall₂ ShapeThinned sources (simplify given) := by
  have each : ∀ given kept : Shape K, simplifyShape? given = some kept →
      ShapeThinned given kept :=
    fun _ _ simplified => shapeThinned_simplifyShape comparable simplified
  exact exists_forall₂_filterMap each given

end Clearance

end Photoplot
