import Photoplot.Number.Shortest
import Photoplot.Proofs.Binary64.Rounding

/-! # The interval of the shortest digits

The search goes through grids of powers of ten. It never leaves the interval around
the value, and it does not end without a hit: the step of the seventeenth grid is
smaller than the interval. -/

namespace Photoplot

/-! ## Powers of two and of ten

The decimal logarithm of two is taken as a fraction with the denominator 100000. -/

theorem ten_pow_le_two_pow : 10 ^ 30102 ≤ 2 ^ 100000 := by decide +kernel

theorem two_pow_le_ten_pow : 2 ^ 100000 ≤ 10 ^ 30103 := by decide +kernel

/-- Powers are compared by their exponents, as far as one power of each tells. -/
theorem zpow_le_zpow_of_rate {base other : ℚ} {rate unit : ℕ} (above : 1 ≤ base)
    (positive : 0 < other) (some : unit ≠ 0) (rates : base ^ rate ≤ other ^ unit)
    {steps place : ℤ} (nonneg : 0 ≤ steps) (below : place * unit ≤ steps * rate) :
    base ^ place ≤ other ^ steps := by
  have basePositive : 0 < base := zero_lt_one.trans_le above
  rw [← pow_le_pow_iff_left₀ (zpow_pos basePositive _).le (zpow_pos positive _).le some]
  calc (base ^ place) ^ unit = base ^ (place * unit) := by rw [zpow_mul, zpow_natCast]
    _ ≤ base ^ (steps * rate) := zpow_le_zpow_right₀ above below
    _ = (base ^ rate) ^ steps := by rw [mul_comm, zpow_mul, zpow_natCast]
    _ ≤ (other ^ unit) ^ steps :=
        zpow_le_zpow_left₀ nonneg (pow_pos basePositive _).le rates
    _ = (other ^ steps) ^ unit := by rw [← zpow_natCast, zpow_comm, zpow_natCast]

theorem ten_zpow_le_two_zpow {bits place : ℤ} (nonneg : 0 ≤ bits)
    (below : place * 100000 ≤ bits * 30102) : (10 : ℚ) ^ place ≤ 2 ^ bits := by
  have rates : ((10 ^ 30102 : ℕ) : ℚ) ≤ (2 ^ 100000 : ℕ) :=
      Nat.cast_le.mpr ten_pow_le_two_pow
  rw [Nat.cast_pow, Nat.cast_pow] at rates
  exact zpow_le_zpow_of_rate (by norm_num) (by norm_num) (by norm_num) rates nonneg below

theorem two_zpow_le_ten_zpow {bits place : ℤ} (nonneg : 0 ≤ place)
    (below : bits * 30103 ≤ place * 100000) : (2 : ℚ) ^ bits ≤ 10 ^ place := by
  have rates : ((2 ^ 100000 : ℕ) : ℚ) ≤ (10 ^ 30103 : ℕ) :=
      Nat.cast_le.mpr two_pow_le_ten_pow
  rw [Nat.cast_pow, Nat.cast_pow] at rates
  exact zpow_le_zpow_of_rate (by norm_num) (by norm_num) (by norm_num) rates nonneg below

/-- The estimate of a leading place is not too large. -/
theorem ten_zpow_estimate_le {bits : ℤ} (few : bits ≤ 100000) :
    (10 : ℚ) ^ ((bits * 30103).fdiv 100000 - 1) ≤ 2 ^ bits := by
  have estimate := Int.ediv_mul_le (bits * 30103) (by decide : (100000 : ℤ) ≠ 0)
  rw [← Int.fdiv_eq_ediv_of_nonneg _ (by decide)] at estimate
  rcases le_total 0 bits with nonneg | nonpos
  · exact ten_zpow_le_two_zpow nonneg (by omega)
  · have inverse : (2 : ℚ) ^ (-bits) ≤ 10 ^ (-((bits * 30103).fdiv 100000 - 1)) :=
      two_zpow_le_ten_zpow (by omega) (by omega)
    rw [zpow_neg, zpow_neg] at inverse
    exact (inv_le_inv₀ (zpow_pos (by norm_num) _) (zpow_pos (by norm_num) _)).mp inverse

namespace Shortest

/-! ## The interval -/

namespace Target

def exact (target : Target) : ℚ := target.value / target.denominator

def Holds (target : Target) (value : ℚ) : Prop :=
  if target.closed then
    target.lower ≤ value * target.denominator ∧ value * target.denominator ≤ target.upper
  else target.lower < value * target.denominator ∧
    value * target.denominator < target.upper

/-- Half the interval below the value, in quarters of a unit of the mantissa. -/
def quartersBelow (number : Binary) : ℕ :=
  if number.mantissa == 1 <<< 52 && decide (-1074 < number.exponent) then 1 else 2

/-- Value and ends are counted in quarters of a unit. -/
theorem exists_scale (number : Binary) : ∃ scale : ℕ, 0 < scale ∧
    0 < (ofBinary number).denominator ∧
    scale ≤ 2 ^ (number.exponent - 2).toNat ∧
    (ofBinary number).denominator * (2 : ℚ) ^ (number.exponent - 2) = scale ∧
    (ofBinary number).value = number.mantissa * 4 * scale ∧
    (ofBinary number).lower = (number.mantissa * 4 - quartersBelow number) * scale ∧
    (ofBinary number).upper = (number.mantissa * 4 + 2) * scale ∧
    (ofBinary number).closed = (number.mantissa % 2 == 0) := by
  unfold ofBinary
  simp only
  cases place : number.exponent - 2 with
  | ofNat power =>
      refine ⟨2 ^ power, Nat.two_pow_pos _, one_pos, le_rfl, ?_, ?_, ?_, ?_, rfl⟩
      · simp
      · exact Nat.shiftLeft_eq _ _
      · exact Nat.shiftLeft_eq _ _
      · exact Nat.shiftLeft_eq _ _
  | negSucc power =>
      have shifted : 1 <<< (power + 1) = 2 ^ (power + 1) := by
        rw [Nat.shiftLeft_eq, one_mul]
      simp only [shifted]
      refine ⟨1, one_pos, Nat.two_pow_pos _, le_rfl, ?_,
        (mul_one _).symm, (mul_one _).symm, (mul_one _).symm, trivial⟩
      rw [zpow_negSucc, Nat.cast_pow, Nat.cast_ofNat, Nat.cast_one]
      exact mul_inv_cancel₀ (pow_pos (by norm_num) _).ne'

theorem exact_ofBinary (number : Binary) :
    (ofBinary number).exact = number.mantissa * 4 * 2 ^ (number.exponent - 2) := by
  rcases exists_scale number with ⟨scale, -, positive, -, unit, value, -⟩
  have isPositive : (0 : ℚ) < (ofBinary number).denominator := by exact_mod_cast positive
  rw [exact, value, div_eq_iff isPositive.ne']
  push_cast
  rw [← unit]
  ring

/-- The interval in quarters of a unit. -/
theorem holds_ofBinary {number : Binary} (some : 0 < number.mantissa) (value : ℚ) :
    (ofBinary number).Holds value ↔
      let quarter : ℚ := 2 ^ (number.exponent - 2)
      if number.mantissa % 2 == 0 then
        (number.mantissa * 4 - quartersBelow number) * quarter ≤ value ∧
          value ≤ (number.mantissa * 4 + 2) * quarter
      else
        (number.mantissa * 4 - quartersBelow number) * quarter < value ∧
          value < (number.mantissa * 4 + 2) * quarter := by
  rcases exists_scale number with ⟨scale, -, positive, -, unit, -, lower, upper, closed⟩
  have isPositive : (0 : ℚ) < (ofBinary number).denominator := by exact_mod_cast positive
  have few : quartersBelow number ≤ number.mantissa * 4 := by
    unfold quartersBelow
    split <;> omega
  simp only [Holds, closed, lower, upper]
  push_cast [few]
  rw [← unit]
  simp only [← mul_assoc, mul_right_comm _ ((ofBinary number).denominator : ℚ),
    mul_le_mul_iff_of_pos_right isPositive, mul_lt_mul_iff_of_pos_right isPositive]

/-! ## Grids -/

/-- On a grid everything is seen in one unit, the step of the grid as well. -/
theorem exists_factor (target : Target) (place : ℤ) : ∃ factor step : ℕ, 0 < factor ∧
    target.onGrid place =
      (target.value * factor, target.lower * factor, target.upper * factor, step) ∧
    (step : ℚ) = 10 ^ place * target.denominator * factor := by
  cases place with
  | ofNat power =>
      refine ⟨1, 10 ^ power * target.denominator, one_pos, ?_, ?_⟩
      · simp only [mul_one]
        rfl
      · simp
  | negSucc power =>
      refine ⟨10 ^ (power + 1), target.denominator, Nat.pow_pos (by norm_num), rfl, ?_⟩
      rw [zpow_negSucc, Nat.cast_pow, Nat.cast_ofNat, mul_comm, ← mul_assoc,
        mul_inv_cancel₀ (pow_pos (by norm_num) _).ne', one_mul]

variable {target : Target}

/-- Multiples of the step are compared on the grid as they are in the rationals. -/
theorem exists_onGrid (some : 0 < target.denominator) (place : ℤ) :
    ∃ value lower upper step : ℕ,
    target.onGrid place = (value, lower, upper, step) ∧ 0 < step ∧
      (∀ count : ℕ, count * step ≤ value ↔ (count * 10 ^ place : ℚ) ≤ target.exact) ∧
      ∀ count : ℕ, (if target.closed then
          decide (lower ≤ count * step) && decide (count * step ≤ upper)
        else decide (lower < count * step) && decide (count * step < upper)) = true ↔
          target.Holds (count * 10 ^ place) := by
  rcases target.exists_factor place with ⟨factor, step, positive, seen, isStep⟩
  have isPositive : (0 : ℚ) < target.denominator := by exact_mod_cast some
  have isPositive' : (0 : ℚ) < factor := by exact_mod_cast positive
  have unit : ∀ count : ℕ,
      (count * step : ℚ) = count * 10 ^ place * target.denominator * factor := by
    intro count
    rw [isStep]
    ring
  have le_iff : ∀ numerator count : ℕ, numerator * factor ≤ count * step ↔
      (numerator : ℚ) ≤ count * 10 ^ place * target.denominator := by
    intro numerator count
    rw [← Nat.cast_le (α := ℚ), Nat.cast_mul, Nat.cast_mul, unit,
      mul_le_mul_iff_of_pos_right isPositive']
  have ge_iff : ∀ numerator count : ℕ, count * step ≤ numerator * factor ↔
      count * 10 ^ place * target.denominator ≤ (numerator : ℚ) := by
    intro numerator count
    rw [← Nat.cast_le (α := ℚ), Nat.cast_mul, Nat.cast_mul, unit,
      mul_le_mul_iff_of_pos_right isPositive']
  have stepPositive : (0 : ℚ) < step := by
    rw [isStep]
    positivity
  refine ⟨_, _, _, step, seen, by exact_mod_cast stepPositive,
    fun count => ?_, fun count => ?_⟩
  · rw [ge_iff, exact, le_div_iff₀ isPositive]
  · unfold Holds
    split
    · rw [Bool.and_eq_true, decide_eq_true_eq, decide_eq_true_eq, le_iff, ge_iff]
    · rw [Bool.and_eq_true, decide_eq_true_eq, decide_eq_true_eq, ← not_le, ← not_le,
        ge_iff, le_iff, not_le, not_le]

theorem reaches_iff (some : 0 < target.denominator) (place : ℤ) :
    target.reaches place = true ↔ (10 : ℚ) ^ place ≤ target.exact := by
  rcases exists_onGrid some place with ⟨value, lower, upper, step, seen, -, below, -⟩
  have once := below 1
  rw [one_mul, Nat.cast_one, one_mul] at once
  simp only [reaches, seen, decide_eq_true_eq, once]

theorem reaches_climb {place : ℤ} (reached : target.reaches place = true) (steps : ℕ) :
    target.reaches (target.climb steps place) = true := by
  induction steps generalizing place with
  | zero => exact reached
  | succ steps induction =>
      rw [climb]
      split
      · rename_i higher
        exact induction higher
      · exact reached

/-- The place of the leading digit is not too high. -/
theorem ten_zpow_leadingPlace_le (some : 0 < target.denominator)
    (value : target.value ≠ 0) (bounded : target.value.log2 ≤ 100000) :
    (10 : ℚ) ^ target.leadingPlace ≤ target.exact := by
  have isPositive : (0 : ℚ) < target.denominator := by exact_mod_cast some
  have bits : (2 : ℚ) ^ ((target.value.log2 : ℤ) - target.denominator.log2 - 1) ≤
      target.exact := by
    have high := (lt_add_one (target.denominator : ℚ)).le.trans
      (Binary64.add_one_le_two_zpow_log2 target.denominator)
    rw [sub_sub, zpow_sub₀ (by norm_num)]
    exact div_le_div₀ (Nat.cast_nonneg _)
      (Binary64.two_zpow_log2_le value) isPositive high
  apply (reaches_iff some _).mp
  apply reaches_climb
  apply (reaches_iff some _).mpr
  exact (ten_zpow_estimate_le (by omega)).trans bits

/-! ## Hits -/

/-- What the choice on one grid takes is a multiple of the step in the interval. -/
theorem holds_of_onPlace (some : 0 < target.denominator) {tie : Tie}
    {place : ℤ} {digits : ℕ} (hit : target.onPlace tie place = .some digits) :
    target.Holds (digits * 10 ^ place) := by
  rcases exists_onGrid some place with ⟨value, lower, upper, step, seen, -, -, inside⟩
  unfold onPlace at hit
  simp only [seen] at hit
  apply (inside digits).mp
  split at hit
  · cases hit
  · rename_i isInside _
    exact Option.some.inj hit ▸ isInside
  · rename_i _ isInside
    exact Option.some.inj hit ▸ isInside
  · rename_i isInside isInside'
    have neighbour : digits = value / step ∨ digits = value / step + 1 := by
      split at hit
      · exact .inl (Option.some.inj hit).symm
      · exact .inr (Option.some.inj hit).symm
      · split at hit
        · exact .inr (Option.some.inj hit).symm
        · split at hit
          · exact .inl (Option.some.inj hit).symm
          · exact .inr (Option.some.inj hit).symm
    rcases neighbour with rfl | rfl
    · exact isInside
    · exact isInside'

/-- Without a choice, neither neighbour of the value lies in the interval. -/
theorem not_holds_of_onPlace (some : 0 < target.denominator) {tie : Tie} {place : ℤ}
    (miss : target.onPlace tie place = none) :
    ∃ below : ℕ, (below * 10 ^ place : ℚ) ≤ target.exact ∧
      target.exact < (below + 1) * 10 ^ place ∧ ¬target.Holds (below * 10 ^ place) ∧
        ¬target.Holds ((below + 1) * 10 ^ place) := by
  rcases exists_onGrid some place with
      ⟨value, lower, upper, step, seen, positive, reached, inside⟩
  refine ⟨value / step, (reached _).mp (Nat.div_mul_le_self value step), ?_, ?_⟩
  · rw [← Nat.cast_succ, ← not_le, ← reached, not_le, mul_comm]
    exact Nat.lt_mul_div_succ value positive
  · rw [← Nat.cast_succ, ← inside, ← inside]
    unfold onPlace at miss
    simp only [seen] at miss
    split at miss
    · rename_i outside outside'
      exact ⟨Bool.eq_false_iff.mp outside, Bool.eq_false_iff.mp outside'⟩
    · cases miss
    · cases miss
    · split at miss
      · cases miss
      · cases miss
      · split at miss
        · cases miss
        · cases miss

/-- The search stays in the interval if one of the grids that it visits has a hit. -/
theorem holds_search (some : 0 < target.denominator) (tie : Tie) {finer : ℕ} {place : ℤ}
    (hit : ∃ count : ℕ, count < finer ∧ target.onPlace tie (place - count) ≠ none) :
    target.Holds ((target.search tie finer place).1 *
      10 ^ (target.search tie finer place).2) := by
  induction finer generalizing place with
  | zero =>
      rcases hit with ⟨count, none, -⟩
      exact absurd none (Nat.not_lt_zero count)
  | succ finer induction =>
      unfold search
      cases found : target.onPlace tie place with
      | some digits => exact holds_of_onPlace some found
      | none =>
          apply induction
          rcases hit with ⟨count, inside, isHit⟩
          cases count with
          | zero =>
              rw [Nat.cast_zero, sub_zero] at isHit
              exact absurd found isHit
          | succ count =>
              refine ⟨count, Nat.lt_of_succ_lt_succ inside, ?_⟩
              rwa [sub_sub, add_comm 1, ← Nat.cast_succ]

/-! ## Mantissas of 53 bits -/

variable {number : Binary}

theorem holds_of_near (some : 0 < number.mantissa) {value : ℚ}
    (above : (number.mantissa * 4 - quartersBelow number) *
      2 ^ (number.exponent - 2) < value)
    (below : value < (number.mantissa * 4 + 2) * 2 ^ (number.exponent - 2)) :
    (ofBinary number).Holds value := by
  apply (holds_ofBinary some value).mpr
  split
  · exact ⟨above.le, below.le⟩
  · exact ⟨above, below⟩

theorem quartersBelow_le (number : Binary) : quartersBelow number ≤ 2 := by
  unfold quartersBelow
  split
  · decide
  · exact le_rfl

theorem Holds.pos (some : 0 < number.mantissa) {value : ℚ}
    (holds : (ofBinary number).Holds value) : 0 < value := by
  have most : (quartersBelow number : ℚ) ≤ 2 := by exact_mod_cast quartersBelow_le number
  have least : (1 : ℚ) ≤ number.mantissa := by exact_mod_cast some
  have lowest : 0 <
      (number.mantissa * 4 - quartersBelow number : ℚ) * 2 ^ (number.exponent - 2) := by
    apply mul_pos
    · linarith
    · exact zpow_pos (by norm_num) _
  have bounds := (holds_ofBinary some value).mp holds
  split at bounds
  · exact lowest.trans_le bounds.1
  · exact lowest.trans bounds.1

theorem mul_two_lt_quartersBelow (small : number.mantissa < 2 ^ 53) :
    number.mantissa * 2 < quartersBelow number * 10 ^ 16 := by
  unfold quartersBelow
  split
  · rename_i narrow
    simp only [Bool.and_eq_true, beq_iff_eq] at narrow
    omega
  · omega

/-- A grid with a step below the 17th digit of the value has a hit: half a step does not
leave the interval. -/
theorem onPlace_ne_none (some : 0 < number.mantissa) (small : number.mantissa < 2 ^ 53)
    (tie : Tie) {place : ℤ}
    (fine : (10 : ℚ) ^ place * 10 ^ 16 ≤ (ofBinary number).exact) :
    (ofBinary number).onPlace tie place ≠ none := by
  intro miss
  rcases exists_scale number with ⟨-, -, positive, -⟩
  rcases not_holds_of_onPlace positive miss with ⟨below, low, high, outside, outside'⟩
  have quarters : (number.mantissa * 2 : ℚ) < quartersBelow number * 10 ^ 16 := by
    exact_mod_cast mul_two_lt_quartersBelow small
  have most : (quartersBelow number : ℚ) ≤ 2 := by exact_mod_cast quartersBelow_le number
  rw [exact_ofBinary] at fine low high
  have quarterPositive : (0 : ℚ) < 2 ^ (number.exponent - 2) := zpow_pos (by norm_num) _
  have near := @holds_of_near number some
  generalize (2 : ℚ) ^ (number.exponent - 2) = quarter at *
  have half : (10 : ℚ) ^ place / 2 < quartersBelow number * quarter := by
    have scaled := mul_lt_mul_of_pos_right quarters quarterPositive
    linarith
  have reach := mul_le_mul_of_nonneg_right most quarterPositive.le
  rcases le_or_gt (number.mantissa * 4 * quarter - below * 10 ^ place)
      ((10 : ℚ) ^ place / 2)
    with left | right
  · apply outside
    apply near
    · linarith
    · linarith
  · apply outside'
    apply near
    · linarith
    · linarith

end Target

/-! ## Digits -/

theorem stripZeros_spec (digits : ℕ) (place : ℤ) :
    ((stripZeros digits place).1 * 10 ^ (stripZeros digits place).2 : ℚ) =
      digits * 10 ^ place := by
  induction digits using Nat.strongRecOn generalizing place with
  | ind digits induction =>
      unfold stripZeros
      split
      · rename_i multiple
        rw [induction (digits / 10) (by omega), zpow_add_one₀ (by norm_num)]
        have split : digits = digits / 10 * 10 := by omega
        have cast : (digits : ℚ) = (digits / 10 : ℕ) * 10 := by exact_mod_cast split
        rw [cast]
        ring
      · rfl

/-- The shortest digits lie in the interval of their number. -/
theorem holds_digits {number : Binary} (some : 0 < number.mantissa)
    (small : number.mantissa < 2 ^ 53) (inRange : number.exponent ≤ 971) (tie : Tie) :
    (Target.ofBinary number).Holds
      ((digits tie number).1 * 10 ^ (digits tie number).2) := by
  rcases Target.exists_scale number with
      ⟨scale, scalePositive, positive, short, -, value, -⟩
  have valuePositive : 0 < (Target.ofBinary number).value := by
    rw [value]
    positivity
  have bits : (Target.ofBinary number).value.log2 ≤ 100000 := by
    have bounded : (Target.ofBinary number).value <
        2 ^ (55 + (number.exponent - 2).toNat) := by
      rw [value, pow_add]
      calc number.mantissa * 4 * scale
          < 2 ^ 55 * scale := Nat.mul_lt_mul_of_pos_right (by omega) scalePositive
        _ ≤ 2 ^ 55 * 2 ^ (number.exponent - 2).toNat := Nat.mul_le_mul_left _ short
    have fewer := (Nat.log2_lt valuePositive.ne').mpr bounded
    omega
  have leading := Target.ten_zpow_leadingPlace_le positive valuePositive.ne' bits
  have hit : (Target.ofBinary number).onPlace tie
      ((Target.ofBinary number).leadingPlace - (16 : ℕ)) ≠ none := by
    apply Target.onPlace_ne_none some small
    rwa [zpow_sub₀ (by norm_num), zpow_natCast, div_mul_cancel₀ _ (by norm_num)]
  have found := @Target.holds_search _ positive tie 17 _ ⟨16, by norm_num, hit⟩
  have kept := stripZeros_spec
    ((Target.ofBinary number).search tie 17 (Target.ofBinary number).leadingPlace).1
    ((Target.ofBinary number).search tie 17 (Target.ofBinary number).leadingPlace).2
  rwa [← kept] at found

end Shortest

end Photoplot
