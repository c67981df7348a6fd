import Photoplot.Proofs.Plot.Round

/-! # How draws are resolved

A circular draw names its centre by offsets and its sweep not at all. The sweep is the one
way to get around the centre from the start to the finish in the commanded direction. With
single quadrants the offsets have no signs; of the four centres that they allow, the draw
goes about one that is as far from the start as from the finish, as nearly as a quarter
turn permits. -/

namespace Photoplot

namespace Arc

/-! ## Sweeps -/

def Goes (clockwise : Bool) (sweep : ℝ) : Prop :=
  if clockwise then -PlaneScalar.turn ≤ sweep ∧ sweep < 0
  else 0 < sweep ∧ sweep ≤ PlaneScalar.turn

/-- About the centre, the sweep leads from the direction of the one point to the direction
of the other. -/
structure Leads (clockwise : Bool) (start finish center : Point ℝ)
    (sweep : ℝ) : Prop where
  goes : Goes clockwise sweep
  arrives : ∃ turns : ℤ,
    angleFrom center start + sweep = angleFrom center finish + PlaneScalar.turn * turns

theorem goes_around (clockwise : Bool) :
    Goes clockwise (if clockwise then -PlaneScalar.turn else PlaneScalar.turn) := by
  cases clockwise with
  | true => exact ⟨le_rfl, neg_lt_zero.mpr turn_pos⟩
  | false => exact ⟨turn_pos, le_rfl⟩

/-- There is one such sweep, and it is found by taking turns off. -/
theorem leads_iff {clockwise : Bool} {start finish center : Point ℝ} {sweep : ℝ} :
    Leads clockwise start finish center sweep ↔
      sweep = directedSweep PlaneScalar.turn
        (angleFrom center finish - angleFrom center start) clockwise := by
  rw [eq_directedSweep_iff turn_pos]
  constructor
  · rintro ⟨goes, turns, arrives⟩
    exact ⟨goes, turns, by linarith⟩
  · rintro ⟨goes, turns, between⟩
    exact ⟨goes, turns, by linarith⟩

theorem Goes.counterclockwise_eq {arc : Arc ℝ} {clockwise : Bool}
    (goes : Goes clockwise arc.sweep) : arc.isCounterclockwise = !clockwise := by
  cases clockwise with
  | true =>
      simp only [isCounterclockwise, Exact.zero_eq, Bool.not_true,
        decide_eq_false_iff_not, not_lt]
      exact goes.2.le
  | false =>
      simp only [isCounterclockwise, Exact.zero_eq, Bool.not_false, decide_eq_true_eq]
      exact goes.1

theorem Leads.unique {clockwise : Bool} {start finish center : Point ℝ} {sweep other : ℝ}
    (leads : Leads clockwise start finish center sweep)
    (otherLeads : Leads clockwise start finish center other) : sweep = other :=
  (leads_iff.mp leads).trans (leads_iff.mp otherLeads).symm

/-- A draw that comes back to its start goes around once; any other leads to its
finish. -/
theorem sweep_of_about {clockwise : Bool} {start finish center : Point ℝ} {arc : Arc ℝ}
    (found : about? clockwise start finish center = some arc) :
    arc.start = angleFrom center start ∧
      if finish.distance start < 1e-9 then
        arc.sweep = if clockwise then -PlaneScalar.turn else PlaneScalar.turn
      else Leads clockwise start finish center arc.sweep := by
  unfold about? at found
  split at found
  · cases found
  rcases Option.some.inj found with rfl
  refine ⟨rfl, ?_⟩
  by_cases closed : finish.distance start < 1e-9
  · simp only [closed, decide_true, if_true]
  · simp only [closed, decide_false, Bool.false_eq_true, if_false]
    exact leads_iff.mpr rfl

/-! ## Centres for single quadrants -/

def IsOffset (start offset center : Point ℝ) : Prop :=
  (center.x = start.x + offset.x ∨ center.x = start.x - offset.x) ∧
    (center.y = start.y + offset.y ∨ center.y = start.y - offset.y)

def Fits (clockwise : Bool) (start finish center : Point ℝ) : Prop :=
  ∃ sweep,
    Leads clockwise start finish center sweep ∧ |sweep| ≤ PlaneScalar.pi / 2.0 + 1e-6

noncomputable def mismatch (start finish center : Point ℝ) : ℝ :=
  |start.distance center - finish.distance center|

theorem isOffset_iff {start offset center : Point ℝ} :
    IsOffset start offset center ↔
      ∃ sign ∈ (signs : List (ℝ × ℝ)),
        center = ⟨start.x + sign.1 * |offset.x|, start.y + sign.2 * |offset.y|⟩ := by
  have sides : ∀ value begun shift : ℝ, value = begun + shift ∨ value = begun - shift ↔
      value = begun + |shift| ∨ value = begun + -|shift| := by
    intro value begun shift
    rcases abs_choice shift with same | opposite
    · rw [same, sub_eq_add_neg]
    · rw [opposite, neg_neg, sub_eq_add_neg, or_comm]
  rcases center with ⟨x, y⟩
  simp only [IsOffset, sides, signs, Exact.one_eq, List.mem_cons, List.not_mem_nil,
    or_false, Point.mk.injEq, exists_eq_or_imp, exists_eq_left, one_mul,
    neg_one_mul]
  tauto

theorem IsOffset.distance_eq {start offset center : Point ℝ}
    (placed : IsOffset start offset center) :
    start.distance center = PlaneScalar.hypot offset.x offset.y := by
  have square : ∀ {value begun shift : ℝ}, value = begun + shift ∨ value = begun - shift →
      (begun - value) ^ 2 = shift ^ 2 := by
    rintro value begun shift (rfl | rfl)
    · ring
    · ring
  change √((start.x - center.x) ^ 2 + (start.y - center.y) ^ 2) =
    √(offset.x ^ 2 + offset.y ^ 2)
  rw [square placed.1, square placed.2]

theorem pi_div_two_eq : (PlaneScalar.pi / 2.0 : ℝ) = Real.pi / 2 := by
  rw [Exact.two_eq]
  rfl

theorem fits_iff {clockwise : Bool} {start finish center : Point ℝ} :
    Fits clockwise start finish center ↔
      |directedSweep PlaneScalar.turn (angleFrom center finish - angleFrom center start)
        clockwise| ≤ PlaneScalar.pi / 2.0 + 1e-6 := by
  simp only [Fits, leads_iff, exists_eq_left]

theorem quadrantCandidate_eq_some_iff {clockwise : Bool}
    {start finish offset center : Point ℝ} {sign : ℝ × ℝ} {miss : ℝ} :
    quadrantCandidate? start finish |offset.x| |offset.y| clockwise sign =
      some (center, miss) ↔
      center = ⟨start.x + sign.1 * |offset.x|, start.y + sign.2 * |offset.y|⟩ ∧
        Fits clockwise start finish center ∧ miss = mismatch start finish center := by
  have size : ∀ value : ℝ, Scalar.abs value = |value| := fun _ => rfl
  simp only [quadrantCandidate?, size]
  split
  · rename_i wide
    constructor
    · intro found
      cases found
    · rintro ⟨rfl, fits, -⟩
      exact absurd (fits_iff.mp fits) (not_le.mpr wide)
  · rename_i narrow
    rw [Option.some.injEq, Prod.mk.injEq]
    constructor
    · rintro ⟨rfl, rfl⟩
      exact ⟨rfl, fits_iff.mpr (not_lt.mp narrow), rfl⟩
    · rintro ⟨rfl, -, rfl⟩
      exact ⟨rfl, rfl⟩

/-- The candidates are the centres at the offsets that fit. -/
theorem mem_candidates {clockwise : Bool}
    {start finish offset center : Point ℝ} {miss : ℝ} :
    (center, miss) ∈
        signs.filterMap
          (quadrantCandidate? start finish |offset.x| |offset.y| clockwise) ↔
      IsOffset start offset center ∧ Fits clockwise start finish center ∧
        miss = mismatch start finish center := by
  simp only [List.mem_filterMap, quadrantCandidate_eq_some_iff, isOffset_iff]
  constructor
  · rintro ⟨sign, isSign, placed, fits⟩
    exact ⟨⟨sign, isSign, placed⟩, fits⟩
  · rintro ⟨⟨sign, isSign, placed⟩, fits⟩
    exact ⟨sign, isSign, placed, fits⟩

theorem foldl_betterCandidate (candidates : List (Point ℝ × ℝ)) :
    candidates.foldl betterCandidate none = candidates.argmin Prod.snd := by
  have step : betterCandidate =
      List.argAux fun left right : Point ℝ × ℝ => left.2 < right.2 := by
    funext best candidate
    cases best with
    | none => rfl
    | some best => rfl
  rw [step]
  rfl

/-- The centre is one of those that fit, and none of them is as far from the one end as
from the other more nearly. -/
structure IsBest (clockwise : Bool) (start finish offset center : Point ℝ) : Prop where
  placed : IsOffset start offset center
  fits : Fits clockwise start finish center
  least : ∀ other, IsOffset start offset other → Fits clockwise start finish other →
    mismatch start finish center ≤ mismatch start finish other

theorem quadrantCenter_eq_none_iff {clockwise : Bool} {start finish offset : Point ℝ} :
    quadrantCenter? start finish |offset.x| |offset.y| clockwise = none ↔
      ∀ center, IsOffset start offset center → ¬Fits clockwise start finish center := by
  simp only [quadrantCenter?, foldl_betterCandidate, Option.map_eq_none_iff,
    List.argmin_eq_none, List.eq_nil_iff_forall_not_mem]
  constructor
  · intro empty center placed fits
    exact empty (center, _) (mem_candidates.mpr ⟨placed, fits, rfl⟩)
  · rintro unfit ⟨center, miss⟩ found
    rcases mem_candidates.mp found with ⟨placed, fits, -⟩
    exact unfit center placed fits

theorem isBest_of_quadrantCenter {clockwise : Bool} {start finish offset center : Point ℝ}
    (found : quadrantCenter? start finish |offset.x| |offset.y| clockwise = some center) :
    IsBest clockwise start finish offset center := by
  simp only [quadrantCenter?, foldl_betterCandidate] at found
  rcases Option.map_eq_some_iff.mp found with ⟨⟨center, miss⟩, best, rfl⟩
  rcases mem_candidates.mp (List.argmin_mem best) with ⟨placed, fits, rfl⟩
  refine ⟨placed, fits, fun other otherPlaced otherFits => ?_⟩
  have candidate := mem_candidates.mpr ⟨otherPlaced, otherFits, rfl⟩
  exact List.le_of_mem_argmin (f := Prod.snd) candidate best

/-! ## Arcs -/

theorem about_eq_none_iff {clockwise : Bool} {start finish center : Point ℝ} :
    about? clockwise start finish center = none ↔ start.distance center < 1e-9 := by
  unfold about?
  split
  · rename_i small
    exact iff_of_true rfl small
  · rename_i large
    exact iff_of_false (Option.some_ne_none _) large

theorem resolve_eq_none_iff {quadrants : Quadrants} {clockwise : Bool}
    {start finish offset : Point ℝ} :
    resolve? quadrants clockwise start finish offset = none ↔
      PlaneScalar.hypot offset.x offset.y < (1e-9 : ℝ) ∨ quadrants = .single ∧
        (finish.distance start < 1e-9 ∨
          ∀ center,
            IsOffset start offset center → ¬Fits clockwise start finish center) := by
  cases quadrants with
  | multi =>
      have placed : IsOffset start offset ⟨start.x + offset.x, start.y + offset.y⟩ :=
        ⟨.inl rfl, .inl rfl⟩
      have found : resolve? .multi clockwise start finish offset =
          about? clockwise start finish ⟨start.x + offset.x, start.y + offset.y⟩ := rfl
      rw [found, about_eq_none_iff, placed.distance_eq]
      simp
  | single =>
      rw [resolve_single]
      split
      · rename_i closed
        exact iff_of_true rfl (.inr ⟨rfl, .inl closed⟩)
      rename_i apart
      rw [← quadrantCenter_eq_none_iff]
      change Option.bind
        (quadrantCenter? start finish |offset.x| |offset.y| clockwise) _ = _ ↔ _
      cases found : quadrantCenter? start finish |offset.x| |offset.y| clockwise with
      | none => simp
      | some center =>
          have placed := (isBest_of_quadrantCenter found).placed
          rw [Option.bind_some, about_eq_none_iff, placed.distance_eq]
          simp [apart]

/-- Where an arc starts, how far it goes around and where it ends, and when there is
none. -/
theorem resolve_directed (quadrants : Quadrants) (clockwise : Bool)
    (start finish offset : Point ℝ) :
    (∀ arc, resolve? quadrants clockwise start finish offset = some arc →
      arc.pointAt arc.start arc.radius = start ∧
      Goes clockwise arc.sweep ∧
      arc.isCounterclockwise = !clockwise ∧
      if finish.distance start < 1e-9 then
        arc.sweep = if clockwise then -(2 * Real.pi) else 2 * Real.pi
      else
        (∃ turns : ℤ, arc.finish = angleFrom arc.center finish + 2 * Real.pi * turns) ∧
        (finish.distance arc.center = arc.radius →
          arc.pointAt arc.finish arc.radius = finish)) ∧
    (resolve? quadrants clockwise start finish offset = none ↔
      PlaneScalar.hypot offset.x offset.y < (1e-9 : ℝ) ∨ quadrants = .single ∧
        (finish.distance start < 1e-9 ∨
          ∀ center,
            IsOffset start offset center → ¬Fits clockwise start finish center)) := by
  refine ⟨fun arc resolved => ?_, resolve_eq_none_iff⟩
  rcases exists_about resolved with ⟨center, found⟩
  rcases sweep_of_about found with ⟨begun, turned⟩
  rcases end_of_about found with ⟨rfl, -, -, atStart, atEnd⟩
  by_cases closed : finish.distance start < 1e-9
  · rw [if_pos closed] at turned ⊢
    have goes : Goes clockwise arc.sweep := by
      rw [turned]
      exact goes_around clockwise
    rw [turn_eq] at turned
    exact ⟨atStart, goes, goes.counterclockwise_eq, turned⟩
  · rw [if_neg closed] at turned atEnd ⊢
    refine ⟨atStart, turned.goes, turned.goes.counterclockwise_eq, ?_, ?_⟩
    · rw [Arc.finish, begun, ← turn_eq]
      exact turned.arrives
    · intro onCircle
      rw [atEnd, ← onCircle, polar_angleFrom]

/-- With single quadrants the centre is the best one that fits, and the arc about it is
the short one that made it fit. -/
theorem quadrantCenter_best (clockwise : Bool) (start finish offset : Point ℝ)
    (apart : 1e-9 ≤ finish.distance start) :
    (quadrantCenter? start finish |offset.x| |offset.y| clockwise = none ↔
      ∀ center, IsOffset start offset center → ¬Fits clockwise start finish center) ∧
    ∀ center, quadrantCenter? start finish |offset.x| |offset.y| clockwise = some center →
      IsBest clockwise start finish offset center ∧
      ((∃ other, IsOffset start offset other ∧ Fits clockwise start finish other ∧
          start.distance other = finish.distance other) →
        start.distance center = finish.distance center) ∧
      (1e-9 ≤ start.distance center →
        ∃ arc, resolve? .single clockwise start finish offset = some arc ∧
        arc.center = center ∧
          (∀ sweep, Leads clockwise start finish center sweep ↔ sweep = arc.sweep) ∧
          Goes clockwise arc.sweep ∧ |arc.sweep| ≤ Real.pi / 2 + 1e-6) := by
  refine ⟨quadrantCenter_eq_none_iff, fun center found => ?_⟩
  have best := isBest_of_quadrantCenter found
  refine ⟨best, ?_, fun extent => ?_⟩
  · rintro ⟨other, placed, fits, same⟩
    have least := best.least other placed fits
    unfold mismatch at least
    rw [same, sub_self, abs_zero, abs_nonpos_iff] at least
    exact sub_eq_zero.mp least
  · cases turned : about? clockwise start finish center with
    | none => exact absurd (about_eq_none_iff.mp turned) (not_lt.mpr extent)
    | some arc =>
        have resolved : resolve? .single clockwise start finish offset = some arc := by
          rw [resolve_single, if_neg (not_lt.mpr apart)]
          exact Option.bind_eq_some_iff.mpr ⟨center, found, turned⟩
        rcases end_of_about turned with ⟨centered, -⟩
        have leads := (sweep_of_about turned).2
        rw [if_neg (not_lt.mpr apart)] at leads
        rcases best.fits with ⟨sweep, fitting, short⟩
        rw [fitting.unique leads, pi_div_two_eq] at short
        refine ⟨arc, resolved, centered, fun sweep =>
          ⟨fun other => other.unique leads, ?_⟩,
          leads.goes, short⟩
        rintro rfl
        exact leads

theorem quadrantCenter_best_quarter :
    1e-9 ≤ (⟨0, 1⟩ : Point ℝ).distance ⟨1, 0⟩ ∧
      ∃ center, quadrantCenter? (⟨1, 0⟩ : Point ℝ) ⟨0, 1⟩ |1| |0| false = some center ∧
        IsBest false ⟨1, 0⟩ ⟨0, 1⟩ ⟨1, 0⟩ center ∧
        (⟨1, 0⟩ : Point ℝ).distance center = (⟨0, 1⟩ : Point ℝ).distance center := by
  have apart : 1e-9 ≤ (⟨0, 1⟩ : Point ℝ).distance ⟨1, 0⟩ := by
    change 1e-9 ≤ √((0 - 1) ^ 2 + (1 - 0) ^ 2)
    apply Real.le_sqrt_of_sq_le
    norm_num
  have placed : IsOffset (⟨1, 0⟩ : Point ℝ) ⟨1, 0⟩ ⟨0, 0⟩ :=
    ⟨.inr (sub_self 1).symm, .inl (add_zero 0).symm⟩
  have leads : Leads false ⟨1, 0⟩ ⟨0, 1⟩ ⟨0, 0⟩ (Real.pi / 2) := by
    have right : angleFrom ⟨0, 0⟩ (⟨1, 0⟩ : Point ℝ) = 0 := by
      change Complex.arg ⟨1 - 0, 0 - 0⟩ = 0
      rw [sub_zero, sub_zero]
      exact Complex.arg_one
    have up : angleFrom ⟨0, 0⟩ (⟨0, 1⟩ : Point ℝ) = Real.pi / 2 := by
      change Complex.arg ⟨0 - 0, 1 - 0⟩ = _
      rw [sub_zero, sub_zero]
      exact Complex.arg_I
    have positive := Real.pi_pos
    have whole := turn_eq
    refine ⟨⟨by linarith, by linarith⟩, 0, ?_⟩
    rw [right, up]
    simp
  have fits : Fits false ⟨1, 0⟩ ⟨0, 1⟩ ⟨0, 0⟩ := by
    refine ⟨Real.pi / 2, leads, ?_⟩
    rw [abs_of_pos Real.pi_div_two_pos, pi_div_two_eq]
    norm_num
  have same : (⟨1, 0⟩ : Point ℝ).distance ⟨0, 0⟩ =
      (⟨0, 1⟩ : Point ℝ).distance ⟨0, 0⟩ := by
    change √((1 - 0) ^ 2 + (0 - 0) ^ 2) = √((0 - 0) ^ 2 + (1 - 0) ^ 2)
    rw [add_comm]
  rcases quadrantCenter_best false ⟨1, 0⟩ ⟨0, 1⟩ ⟨1, 0⟩ apart with ⟨none_iff, best⟩
  cases found : quadrantCenter? (⟨1, 0⟩ : Point ℝ) ⟨0, 1⟩ |1| |0| false with
  | none => exact absurd fits (none_iff.mp found _ placed)
  | some center =>
      rcases best center found with ⟨isBest, equidistant, -⟩
      exact ⟨apart, center, rfl, isBest, equidistant ⟨⟨0, 0⟩, placed, fits, same⟩⟩

end Arc

end Photoplot
