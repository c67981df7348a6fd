import Photoplot.Geometry.Arc
import Photoplot.Proofs.Scalar.Exact

/-! # Sweeps brought into a direction

Whole turns are taken off a difference of angles, or added to it: by a first loop as long
as it goes the wrong way, then by a second one as long as it goes around more than once.
Both loops end. What they leave is the only sweep of the commanded direction that differs
from the angle by whole turns. -/

namespace Photoplot

namespace Arc

/-! ## Loops -/

/-- Turns are taken off as long as there are too many of them, and `rest` is left. A loop
that goes on for ever leaves nothing. -/
inductive Unwinds (excessive : ℝ → Prop) (step : ℝ) : ℝ → ℝ → Prop
  | settled {sweep : ℝ} (still : ¬excessive sweep) : Unwinds excessive step sweep sweep
  | turned {sweep rest : ℝ} (excess : excessive sweep)
      (others : Unwinds excessive step (sweep - step) rest) :
      Unwinds excessive step sweep rest

namespace Unwinds

variable {excessive : ℝ → Prop} {step sweep rest : ℝ}

theorem still (unwinds : Unwinds excessive step sweep rest) : ¬excessive rest := by
  induction unwinds with
  | settled still => exact still
  | turned excess others induction => exact induction

/-- What every turn keeps is kept by all of them. -/
theorem holds_rest (unwinds : Unwinds excessive step sweep rest) (holds : ℝ → Prop)
    (keeps : ∀ value, holds value → excessive value → holds (value - step))
    (begun : holds sweep) : holds rest := by
  induction unwinds with
  | settled still => exact begun
  | turned excess others induction => exact induction (keeps _ begun excess)

theorem exists_eq (unwinds : Unwinds excessive step sweep rest) :
    ∃ count : ℤ, rest = sweep + step * count := by
  refine unwinds.holds_rest (fun value => ∃ count : ℤ, value = sweep + step * count) ?_
    ⟨0, by simp⟩
  rintro value ⟨count, rfl⟩ -
  refine ⟨count - 1, ?_⟩
  push_cast
  ring

end Unwinds

/-- A loop ends if there are not too many turns after some number of steps. Any bound that
is not below this number is as good as none. -/
theorem unwinds_unwind (excessive : ℝ → Prop) [DecidablePred excessive]
    (step : ℝ) {sweep : ℝ} {turns count : ℕ} (enough : count ≤ turns)
    (still : ¬excessive (sweep - step * count)) :
    Unwinds excessive step sweep
      (unwind (fun value => decide (excessive value)) step turns sweep) := by
  induction turns generalizing sweep count with
  | zero =>
      rcases Nat.le_zero.mp enough with rfl
      exact .settled (by simpa using still)
  | succ turns induction =>
      by_cases excess : excessive sweep
      · rw [unwind, if_pos (decide_eq_true excess)]
        cases count with
        | zero => simp [excess] at still
        | succ count =>
            have next : sweep - step * (count + 1 : ℕ) = sweep - step - step * count := by
              push_cast
              ring
            rw [next] at still
            exact .turned excess (induction (Nat.le_of_succ_le_succ enough) still)
      · rw [unwind, if_neg (by simpa using excess)]
        exact .settled excess

/-! ## Directions -/

def Directed (turn : ℝ) (clockwise : Bool) (sweep : ℝ) : Prop :=
  if clockwise then -turn ≤ sweep ∧ sweep < 0 else 0 < sweep ∧ sweep ≤ turn

def Settles (turn : ℝ) (clockwise : Bool) (sweep rest : ℝ) : Prop :=
  if clockwise then
    ∃ below, Unwinds (fun value => 0 ≤ value) turn sweep below ∧
      Unwinds (fun value => value < -turn) (-turn) below rest
  else
    ∃ above, Unwinds (fun value => value ≤ 0) (-turn) sweep above ∧
      Unwinds (fun value => turn < value) turn above rest

variable {turn sweep rest : ℝ} {clockwise : Bool}

/-- Two sweeps of one direction do not differ by whole turns. -/
theorem Directed.eq_of_turns (positive : 0 < turn) {other : ℝ}
    (directed : Directed turn clockwise sweep)
    (otherDirected : Directed turn clockwise other)
    (turns : ℤ) (apart : other = sweep + turn * turns) : other = sweep := by
  have within : |turn * turns| < turn := by
    rw [abs_lt]
    cases clockwise with
    | true =>
        rcases directed with ⟨least, most⟩
        rcases otherDirected with ⟨otherLeast, otherMost⟩
        constructor <;> linarith
    | false =>
        rcases directed with ⟨least, most⟩
        rcases otherDirected with ⟨otherLeast, otherMost⟩
        constructor <;> linarith
  rw [abs_mul, abs_of_pos positive, mul_lt_iff_lt_one_right positive] at within
  have none : turns = 0 := Int.abs_lt_one_iff.mp (by exact_mod_cast within)
  rw [apart, none, Int.cast_zero, mul_zero, add_zero]

theorem Directed.abs_le (directed : Directed turn clockwise sweep) : |sweep| ≤ turn := by
  cases clockwise with
  | true =>
      rcases directed with ⟨least, most⟩
      rw [abs_of_neg most]
      linarith
  | false =>
      rcases directed with ⟨least, most⟩
      rwa [abs_of_pos least]

namespace Settles

/-- The second loop stops before it would undo the first one: its steps end on the side of
zero that the first one has come to. -/
theorem directed (settles : Settles turn clockwise sweep rest) :
    Directed turn clockwise rest := by
  cases clockwise with
  | true =>
      rcases settles with ⟨below, first, second⟩
      refine ⟨not_lt.mp second.still, ?_⟩
      exact second.holds_rest (· < 0) (fun value _ low => by linarith)
        (not_le.mp first.still)
  | false =>
      rcases settles with ⟨above, first, second⟩
      refine ⟨?_, not_lt.mp second.still⟩
      exact second.holds_rest (0 < ·) (fun value _ high => by linarith)
        (not_le.mp first.still)

theorem exists_turns (settles : Settles turn clockwise sweep rest) :
    ∃ turns : ℤ, rest = sweep + turn * turns := by
  cases clockwise with
  | true =>
      rcases settles with ⟨below, first, second⟩
      rcases first.exists_eq with ⟨down, rfl⟩
      rcases second.exists_eq with ⟨up, rfl⟩
      refine ⟨down - up, ?_⟩
      push_cast
      ring
  | false =>
      rcases settles with ⟨above, first, second⟩
      rcases first.exists_eq with ⟨up, rfl⟩
      rcases second.exists_eq with ⟨down, rfl⟩
      refine ⟨down - up, ?_⟩
      push_cast
      ring

end Settles

/-- The bound on the turns of the loops is never reached: where the first one ends, the
sweep is at most one turn longer than it was. -/
theorem settles_directedSweep (positive : 0 < turn) (sweep : ℝ) (clockwise : Bool) :
    Settles turn clockwise sweep (directedSweep turn sweep clockwise) := by
  have whole : |sweep| ≤ turn * ⌈|sweep| / turn⌉₊ := by
    rw [← div_le_iff₀' positive]
    exact Nat.le_ceil _
  have size := abs_nonneg sweep
  have least := neg_abs_le sweep
  have most := le_abs_self sweep
  have turns : Scalar.ceilNat (Scalar.abs sweep / turn) = ⌈|sweep| / turn⌉₊ := rfl
  generalize ⌈|sweep| / turn⌉₊ = count at whole turns
  -- One turn more than the angle has, since whole turns end on no side of zero.
  have enough := Nat.le_succ (count + 1)
  cases clockwise with
  | true =>
      simp only [directedSweep, if_true, turns, Exact.zero_eq]
      have beyond : sweep - turn * (count + 1 : ℕ) < 0 := by
        push_cast
        linarith
      have first := unwinds_unwind (fun value => 0 ≤ value) turn enough beyond.not_ge
      refine ⟨_, first, unwinds_unwind (fun value => value < -turn) (-turn) enough ?_⟩
      have longest := first.holds_rest (fun value => -|sweep| - turn ≤ value)
        (fun value _ high => by linarith) (by linarith)
      rw [not_lt]
      push_cast
      linarith
  | false =>
      simp only [directedSweep, Bool.false_eq_true, if_false, turns, Exact.zero_eq]
      have beyond : 0 < sweep - -turn * (count + 1 : ℕ) := by
        push_cast
        linarith
      have first := unwinds_unwind (fun value => value ≤ 0) (-turn) enough beyond.not_ge
      refine ⟨_, first, unwinds_unwind (fun value => turn < value) turn enough ?_⟩
      have longest := first.holds_rest (fun value => value ≤ |sweep| + turn)
        (fun value _ low => by linarith) (by linarith)
      rw [not_lt]
      push_cast
      linarith

theorem directed_directedSweep (positive : 0 < turn) (sweep : ℝ) (clockwise : Bool) :
    Directed turn clockwise (directedSweep turn sweep clockwise) :=
  (settles_directedSweep positive sweep clockwise).directed

/-- Bringing a sweep into a direction changes it by whole turns. -/
theorem exists_directedSweep_eq (positive : 0 < turn) (sweep : ℝ) (clockwise : Bool) :
    ∃ turns : ℤ, directedSweep turn sweep clockwise = sweep + turn * turns :=
  (settles_directedSweep positive sweep clockwise).exists_turns

/-- There is one sweep of the direction that differs by whole turns. -/
theorem eq_directedSweep_iff (positive : 0 < turn) :
    rest = directedSweep turn sweep clockwise ↔
      Directed turn clockwise rest ∧ ∃ turns : ℤ, rest = sweep + turn * turns := by
  constructor
  · rintro rfl
    exact ⟨directed_directedSweep positive sweep clockwise,
      exists_directedSweep_eq positive sweep clockwise⟩
  · rintro ⟨directed, turns, same⟩
    rcases exists_directedSweep_eq positive sweep clockwise with ⟨count, settled⟩
    refine (directed_directedSweep positive sweep clockwise).eq_of_turns positive directed
      (turns - count) ?_
    rw [settled, same]
    push_cast
    ring

theorem directedSweep_eq (positive : 0 < turn)
    (directed : Directed turn clockwise sweep) :
    directedSweep turn sweep clockwise = sweep :=
  ((eq_directedSweep_iff positive).mpr ⟨directed, 0, by simp⟩).symm

/-- The loops end for every angle, and they leave its directed sweep. That is the only one
of the direction that differs from the angle by whole turns, and stays as it is when it is
brought into the direction again. -/
theorem directedSweep_settles (positive : 0 < turn) (sweep : ℝ) (clockwise : Bool) :
    (∀ rest, Settles turn clockwise sweep rest ↔
      rest = directedSweep turn sweep clockwise) ∧
    (∃ turns : ℤ, directedSweep turn sweep clockwise = sweep + turn * turns) ∧
    Directed turn clockwise (directedSweep turn sweep clockwise) ∧
    (∀ other, Directed turn clockwise other →
      (∃ turns : ℤ, other = sweep + turn * turns) →
      other = directedSweep turn sweep clockwise) ∧
    directedSweep turn (directedSweep turn sweep clockwise) clockwise =
      directedSweep turn sweep clockwise := by
  have directed := directed_directedSweep positive sweep clockwise
  refine ⟨fun rest => ⟨fun settles => ?_, ?_⟩,
    exists_directedSweep_eq positive sweep clockwise, directed,
    fun other heads turns => ?_, directedSweep_eq positive directed⟩
  · exact (eq_directedSweep_iff positive).mpr ⟨settles.directed, settles.exists_turns⟩
  · rintro rfl
    exact settles_directedSweep positive sweep clockwise
  · exact (eq_directedSweep_iff positive).mpr ⟨heads, turns⟩

/-- Clockwise, an angle of whole turns is one turn, and not none. -/
theorem directedSweep_settles_wholeTurns :
    (0 : ℝ) < 4 ∧ (∃ turns : ℤ, (-4 : ℝ) = 8 + 4 * turns) ∧ Settles 4 true 8 (-4) ∧
      directedSweep (4 : ℝ) 8 true = -4 := by
  have positive : (0 : ℝ) < 4 := by norm_num
  have apart : ∃ turns : ℤ, (-4 : ℝ) = 8 + 4 * turns := ⟨-3, by norm_num⟩
  have directed : Directed 4 true (-4) := ⟨le_rfl, by norm_num⟩
  rcases directedSweep_settles positive 8 true with ⟨settles, -, -, unique, -⟩
  have whole := unique (-4) directed apart
  exact ⟨positive, apart, (settles (-4)).mpr whole, whole.symm⟩

end Arc

end Photoplot
