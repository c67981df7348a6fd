import Mathlib

/-! # Rounding to 64-bit floats

The arithmetic of floats rounds an exact value to the nearest multiple of a power of
two, and a tie to the even one. Here that is said of rational numbers, and shown of
the shifts and residual bits that the arithmetic is made of. -/

namespace Photoplot.Binary64

open Float.Model Float.Model.UnpackedFloat

/-! ## Grids -/

/-- The step between the floats around a value is this power of two. -/
structure IsGrid (value : ℚ) (place : ℤ) : Prop where
  least : -1074 ≤ place
  below : value < 2 ^ (place + 53)
  above : place = -1074 ∨ 2 ^ (place + 52) ≤ value

theorem two_zpow_pos (place : ℤ) : (0 : ℚ) < 2 ^ place := zpow_pos (by norm_num) place

theorem two_zpow_le {low high : ℤ} : (2 : ℚ) ^ low ≤ 2 ^ high ↔ low ≤ high :=
  zpow_le_zpow_iff_right₀ (by norm_num)

theorem two_zpow_lt {low high : ℤ} : (2 : ℚ) ^ low < 2 ^ high ↔ low < high :=
  zpow_lt_zpow_iff_right₀ (by norm_num)

theorem two_zpow_add (place other : ℤ) :
    (2 : ℚ) ^ (place + other) = 2 ^ place * 2 ^ other :=
  zpow_add₀ (by norm_num) place other

theorem two_zpow_log2_le {number : ℕ} (some : number ≠ 0) :
    (2 : ℚ) ^ (number.log2 : ℤ) ≤ number := by
  rw [zpow_natCast]
  exact_mod_cast Nat.log2_self_le some

theorem add_one_le_two_zpow_log2 (number : ℕ) :
    (number : ℚ) + 1 ≤ 2 ^ (number.log2 + 1 : ℤ) := by
  rw [← Nat.cast_succ, ← Nat.cast_succ, zpow_natCast]
  exact_mod_cast Nat.lt_log2_self

theorem IsGrid.mono {value greater : ℚ} {place other : ℤ} (grid : IsGrid value place)
    (otherGrid : IsGrid greater other) (ordered : value ≤ greater) : place ≤ other := by
  rcases grid.above with least | above
  · rw [least]
    exact otherGrid.least
  · have powers := two_zpow_lt.mp ((above.trans ordered).trans_lt otherGrid.below)
    omega

theorem IsGrid.unique {value : ℚ} {place other : ℤ} (grid : IsGrid value place)
    (otherGrid : IsGrid value other) : place = other :=
  le_antisymm (grid.mono otherGrid le_rfl) (otherGrid.mono grid le_rfl)

/-- The grid in units of its step. -/
theorem isGrid_iff {value : ℚ} {place : ℤ} :
    IsGrid value place ↔ -1074 ≤ place ∧ value / 2 ^ place < ((2 ^ 53 : ℕ) : ℚ) ∧
      (place = -1074 ∨ ((2 ^ 52 : ℕ) : ℚ) ≤ value / 2 ^ place) := by
  have below : value < 2 ^ (place + 53) ↔ value / 2 ^ place < ((2 ^ 53 : ℕ) : ℚ) := by
    rw [div_lt_iff₀ (two_zpow_pos place), add_comm, two_zpow_add]
    norm_cast
  have above : 2 ^ (place + 52) ≤ value ↔ ((2 ^ 52 : ℕ) : ℚ) ≤ value / 2 ^ place := by
    rw [le_div_iff₀ (two_zpow_pos place), add_comm, two_zpow_add]
    norm_cast
  rw [← below, ← above]
  exact ⟨fun grid => ⟨grid.least, grid.below, grid.above⟩,
    fun ⟨least, below, above⟩ => ⟨least, below, above⟩⟩

theorem targetExponent_eq (mantissa : ℕ) (exponent : ℤ) :
    Format.binary64.targetExponent (totalExponent mantissa exponent) =
      max (mantissa.log2 + exponent - 52) (-1074) := by
  simp only [Format.targetExponent, totalExponent, Format.mantissaBits,
    Format.minExponent]
  norm_num
  omega

/-- The exponent that the arithmetic aims at is that of the grid. -/
theorem isGrid_targetExponent {mantissa : ℕ} (exponent : ℤ)
    {value : ℚ} (some : mantissa ≠ 0) (low : mantissa * 2 ^ exponent ≤ value)
    (high : value < (mantissa + 1) * 2 ^ exponent) :
    IsGrid value (Format.binary64.targetExponent (totalExponent mantissa exponent)) := by
  have atLeast : (2 : ℚ) ^ (mantissa.log2 + exponent : ℤ) ≤ value := by
    refine le_trans ?_ low
    rw [two_zpow_add]
    exact mul_le_mul_of_nonneg_right (two_zpow_log2_le some) (two_zpow_pos exponent).le
  have atMost : value < (2 : ℚ) ^ (mantissa.log2 + 1 + exponent : ℤ) := by
    refine lt_of_lt_of_le high ?_
    rw [two_zpow_add]
    exact mul_le_mul_of_nonneg_right (add_one_le_two_zpow_log2 mantissa)
      (two_zpow_pos exponent).le
  rw [targetExponent_eq]
  refine ⟨le_max_right _ _, lt_of_lt_of_le atMost (two_zpow_le.mpr (by omega)), ?_⟩
  rcases le_total (-1074 : ℤ) (mantissa.log2 + exponent - 52) with normal | subnormal
  · right
    rw [max_eq_left normal]
    exact le_trans (two_zpow_le.mpr (by omega)) atLeast
  · left
    exact max_eq_right subnormal

/-! ## Nearest numbers -/

/-- The nearest natural number; of two equally near ones, the even one. -/
structure IsNearest (value : ℚ) (number : ℕ) : Prop where
  near : |value - number| ≤ 1 / 2
  even : |value - number| = 1 / 2 → number % 2 = 0

theorem IsNearest.mono {value greater : ℚ} {number other : ℕ}
    (nearest : IsNearest value number)
    (otherNearest : IsNearest greater other) (ordered : value ≤ greater) :
    number ≤ other := by
  by_contra exceeds
  have step : (other : ℚ) + 1 ≤ number := by exact_mod_cast not_le.mp exceeds
  have left := abs_le.mp nearest.near
  have right := abs_le.mp otherNearest.near
  -- both are halves away from the same value between them, and one of them is odd
  have leftTie : |value - number| = 1 / 2 := by
    rw [abs_of_nonpos (by linarith)]
    linarith
  have rightTie : |greater - other| = 1 / 2 := by
    rw [abs_of_nonneg (by linarith)]
    linarith
  have adjacent : number = other + 1 := by
    have same : (number : ℚ) = other + 1 := by linarith
    exact_mod_cast same
  have leftEven := nearest.even leftTie
  have rightEven := otherNearest.even rightTie
  omega

theorem IsNearest.unique {value : ℚ} {number other : ℕ} (nearest : IsNearest value number)
    (otherNearest : IsNearest value other) : number = other :=
  le_antisymm (nearest.mono otherNearest le_rfl) (otherNearest.mono nearest le_rfl)

theorem isNearest_natCast (number : ℕ) : IsNearest number number := by
  constructor
  · norm_num
  · norm_num

/-! ## Residual bits -/

/-- The mantissa is the whole part of a value, and the two bits tell what is left of
it: whether it is a half or more, and whether it is neither nothing nor a half. -/
structure Describes (extended : ExtendedMantissa) (value : ℚ) : Prop where
  low : (extended.mantissa : ℚ) ≤ value
  high : value < extended.mantissa + 1
  round : extended.roundBit = true ↔ (extended.mantissa : ℚ) + 1 / 2 ≤ value
  sticky : extended.stickyBit = true ↔
    value ≠ extended.mantissa ∧ value ≠ extended.mantissa + 1 / 2

theorem describes_exact (mantissa : ℕ) :
    Describes (.ofMantissaAndAccuracy mantissa .exact) mantissa := by
  constructor
  · exact le_rfl
  · exact lt_add_one (mantissa : ℚ)
  · simp [ExtendedMantissa.ofMantissaAndAccuracy]
  · simp [ExtendedMantissa.ofMantissaAndAccuracy]

theorem Describes.ne_mantissa_iff {extended : ExtendedMantissa} {value : ℚ}
    (describes : Describes extended value) :
    (extended.roundBit || extended.stickyBit) = true ↔ value ≠ extended.mantissa := by
  rw [Bool.or_eq_true, describes.round, describes.sticky]
  constructor
  · rintro (half | ⟨other, -⟩)
    · intro same
      linarith
    · exact other
  · intro other
    by_cases half : (extended.mantissa : ℚ) + 1 / 2 ≤ value
    · exact .inl half
    · exact .inr ⟨other, fun same => half same.ge⟩

theorem Describes.shiftRightOne {extended : ExtendedMantissa} {value : ℚ}
    (describes : Describes extended value) :
    Describes extended.shiftRightOne (value / 2) := by
  have kept := describes.ne_mantissa_iff
  rcases describes with ⟨low, high, round, sticky⟩
  have split : extended.mantissa = 2 * (extended.mantissa / 2) + extended.mantissa % 2 :=
    (Nat.div_add_mod _ _).symm
  have cast : (extended.mantissa : ℚ) =
      2 * (extended.mantissa / 2 : ℕ) + (extended.mantissa % 2 : ℕ) := by
        exact_mod_cast split
  rcases Nat.mod_two_eq_zero_or_one extended.mantissa with even | odd
  · rw [even, Nat.cast_zero] at cast
    constructor
    · simp only [ExtendedMantissa.shiftRightOne]
      linarith
    · simp only [ExtendedMantissa.shiftRightOne]
      linarith
    · simp only [ExtendedMantissa.shiftRightOne, even]
      constructor
      · intro impossible
        exact absurd impossible (by decide)
      · intro half
        linarith
    · simp only [ExtendedMantissa.shiftRightOne, kept]
      constructor
      · intro other
        constructor
        · intro same
          apply other
          linarith
        · intro same
          linarith
      · rintro ⟨other, -⟩ same
        apply other
        linarith
  · rw [odd, Nat.cast_one] at cast
    constructor
    · simp only [ExtendedMantissa.shiftRightOne]
      linarith
    · simp only [ExtendedMantissa.shiftRightOne]
      linarith
    · simp only [ExtendedMantissa.shiftRightOne, odd]
      constructor
      · intro _
        linarith
      · intro _
        decide
    · simp only [ExtendedMantissa.shiftRightOne, kept]
      constructor
      · intro other
        constructor
        · intro same
          linarith
        · intro same
          apply other
          linarith
      · rintro ⟨-, other⟩ same
        apply other
        linarith

theorem Describes.shift {extended : ExtendedMantissa} {value : ℚ}
    (describes : Describes extended value) (count : ℕ) :
    Describes (extended >>> count) (value / 2 ^ count) := by
  induction count with
  | zero =>
      rw [pow_zero, div_one]
      exact describes
  | succ count induction =>
      rw [pow_succ, ← div_div]
      exact induction.shiftRightOne

theorem Describes.isNearest {extended : ExtendedMantissa} {value : ℚ}
    (describes : Describes extended value) :
    IsNearest value extended.roundedMantissa := by
  rcases extended with ⟨mantissa, roundBit, stickyBit⟩
  rcases describes with ⟨low, high, round, sticky⟩
  simp only at low high round sticky
  cases roundBit with
  | false =>
      have lower : value < mantissa + 1 / 2 := by
        by_contra half
        exact absurd (round.mpr (not_lt.mp half)) (by decide)
      have rounded :
          (ExtendedMantissa.mk mantissa false stickyBit).roundedMantissa = mantissa := by
        cases stickyBit <;> rfl
      rw [rounded]
      constructor
      · rw [abs_of_nonneg (by linarith)]
        linarith
      · intro tie
        rw [abs_of_nonneg (by linarith)] at tie
        linarith
  | true =>
      have upper : (mantissa : ℚ) + 1 / 2 ≤ value := round.mp rfl
      cases stickyBit with
      | false =>
          have tie : value = mantissa + 1 / 2 := by
            by_contra other
            have notWhole : value ≠ mantissa := by
              intro same
              linarith
            exact absurd (sticky.mpr ⟨notWhole, other⟩) (by decide)
          have rounded : (ExtendedMantissa.mk mantissa true false).roundedMantissa =
              mantissa + mantissa % 2 := rfl
          rw [rounded]
          rcases Nat.mod_two_eq_zero_or_one mantissa with even | odd
          · refine ⟨?_, fun _ => by omega⟩
            rw [even, tie]
            norm_num
          · refine ⟨?_, fun _ => by omega⟩
            rw [odd, tie]
            push_cast
            norm_num
      | true =>
          have strict : value ≠ mantissa + 1 / 2 := (sticky.mp rfl).2
          have above : (mantissa : ℚ) + 1 / 2 < value := lt_of_le_of_ne upper strict.symm
          have rounded :
              (ExtendedMantissa.mk mantissa true true).roundedMantissa = mantissa + 1 :=
            rfl
          rw [rounded]
          have distance : |value - (mantissa + 1 : ℕ)| = mantissa + 1 - value := by
            rw [Nat.cast_succ, abs_of_nonpos (by linarith)]
            ring
          constructor
          · rw [distance]
            linarith
          · intro tie
            rw [distance] at tie
            linarith

/-! ## Rounded values -/

/-- A mantissa that was rounded up to the next power of two gives its last bit to the
exponent. -/
def assemble (sign : Sign) (mantissa : ℕ) (place : ℤ) : UnpackedFloat :=
  if positive : 0 < mantissa then
    if mantissa < 2 ^ 53 then .finite sign mantissa place positive
    else .finite sign (2 ^ 52) (place + 1) (by decide)
  else .zero sign

/-- The float is the nearest one to the signed value, were there no greatest float. -/
def IsRounded (sign : Sign) (value : ℚ) (float : UnpackedFloat) : Prop :=
  ∃ place mantissa, IsGrid value place ∧ IsNearest (value / 2 ^ place) mantissa ∧
    float = assemble sign mantissa place

theorem IsRounded.unique {sign : Sign} {value : ℚ} {float other : UnpackedFloat}
    (rounded : IsRounded sign value float) (otherRounded : IsRounded sign value other) :
    float = other := by
  rcases rounded with ⟨place, mantissa, grid, nearest, rfl⟩
  rcases otherRounded with ⟨otherPlace, otherMantissa, otherGrid, otherNearest, rfl⟩
  rcases grid.unique otherGrid with rfl
  rcases nearest.unique otherNearest with rfl
  rfl

theorem isRounded_zero (sign : Sign) : IsRounded sign 0 (.zero sign) := by
  refine ⟨-1074, 0, ⟨le_rfl, two_zpow_pos _, .inl rfl⟩, ?_, rfl⟩
  rw [zero_div]
  exact_mod_cast isNearest_natCast 0

theorem IsGrid.mantissa_le {value : ℚ} {place : ℤ} (grid : IsGrid value place)
    {mantissa : ℕ}
    (nearest : IsNearest (value / 2 ^ place) mantissa) : mantissa ≤ 2 ^ 53 :=
  nearest.mono (isNearest_natCast _) (isGrid_iff.mp grid).2.1.le

/-- After rounding, a second shift moves the last bit of a mantissa that overflows. -/
theorem assemble_eq (sign : Sign) {mantissa : ℕ} {place : ℤ} (least : -1074 ≤ place)
    (bounded : mantissa ≤ 2 ^ 53) :
    (let final := shiftToTargetExponent .binary64 mantissa place .exact
      if isZero : final.1.mantissa = 0 then UnpackedFloat.zero sign
      else .finite sign final.1.mantissa final.2 (Nat.pos_of_ne_zero isZero)) =
      assemble sign mantissa place := by
  rcases bounded.lt_or_eq with small | full
  · have short : mantissa.log2 ≤ 52 := by
      by_cases isZero : mantissa = 0
      · simp [isZero]
      · have fewer := (Nat.log2_lt isZero).mpr small
        omega
    have still : shiftToTargetExponent .binary64 mantissa place .exact =
        (⟨mantissa, false, false⟩, place) := by
      have count : (max (mantissa.log2 + place - 52) (-1074) - place).toNat = 0 := by
        omega
      rw [shiftToTargetExponent, targetExponent_eq, shiftToExponent, count]
      simp [HShiftRight.hShiftRight, Nat.repeat, ExtendedMantissa.ofMantissaAndAccuracy]
    simp only [still, assemble, small, if_true]
    rcases Nat.eq_zero_or_pos mantissa with isZero | positive
    · simp [isZero]
    · simp [positive, positive.ne']
  · have moved : shiftToTargetExponent .binary64 (2 ^ 53) place .exact =
        (⟨2 ^ 52, false, false⟩, place + 1) := by
      have count :
          (max (((2 ^ 53 : ℕ).log2 : ℤ) + place - 52) (-1074) - place).toNat = 1 := by
        rw [Nat.log2_two_pow]
        omega
      rw [shiftToTargetExponent, targetExponent_eq, shiftToExponent, count]
      rfl
    rw [full]
    simp only [moved, assemble]
    rfl

theorem isRounded_roundWithAccuracy (sign : Sign) {mantissa : ℕ} {exponent place : ℤ}
    {accuracy : Accuracy} {value : ℚ}
    (describes : Describes (.ofMantissaAndAccuracy mantissa accuracy)
      (value / 2 ^ exponent))
    (grid : IsGrid value place) (fine : exponent ≤ place) :
    IsRounded sign value
      (roundWithAccuracy .binary64 sign mantissa exponent accuracy) := by
  have whole :
      (ExtendedMantissa.ofMantissaAndAccuracy mantissa accuracy).mantissa = mantissa := by
    match accuracy with
    | .exact => rfl
    | .inexact .lt => rfl
    | .inexact .eq => rfl
    | .inexact .gt => rfl
  have low := describes.low
  have high := describes.high
  rw [whole, le_div_iff₀ (two_zpow_pos exponent)] at low
  rw [whole, div_lt_iff₀ (two_zpow_pos exponent)] at high
  have target :
      Format.binary64.targetExponent (totalExponent mantissa exponent) = place := by
    by_cases isZero : mantissa = 0
    · -- all of the value is in the residual bits, so it is below the least float
      have tiny : value < 2 ^ exponent := by simpa [isZero] using high
      rcases grid.above with least | above
      · rw [targetExponent_eq, isZero, least]
        rw [least] at fine
        simp
        omega
      · have powers := two_zpow_lt.mp (above.trans_lt tiny)
        omega
    · exact (isGrid_targetExponent exponent isZero low high).unique grid
  have exponents : exponent + (place - exponent).toNat = place := by omega
  have shifted := describes.shift (place - exponent).toNat
  have scale : value / 2 ^ exponent / 2 ^ (place - exponent).toNat =
      value / 2 ^ place := by
    rw [div_div, ← zpow_natCast, ← two_zpow_add, exponents]
  rw [scale] at shifted
  have first : shiftToTargetExponent .binary64 mantissa exponent accuracy =
      (ExtendedMantissa.ofMantissaAndAccuracy mantissa accuracy >>>
        (place - exponent).toNat,
        place) := by
    rw [shiftToTargetExponent, target, shiftToExponent, exponents]
  refine ⟨place, _, grid, shifted.isNearest, ?_⟩
  rw [← assemble_eq sign grid.least (grid.mantissa_le shifted.isNearest),
    roundWithAccuracy, first]

theorem isRounded_round (sign : Sign) {mantissa : ℕ} (exponent : ℤ)
    (some : mantissa ≠ 0) :
    IsRounded sign (mantissa * 2 ^ exponent)
      (UnpackedFloat.round .binary64 sign mantissa exponent) := by
  have grid : IsGrid (mantissa * 2 ^ exponent)
      (Format.binary64.targetExponent (totalExponent mantissa exponent)) := by
    apply isGrid_targetExponent exponent some le_rfl
    exact mul_lt_mul_of_pos_right (lt_add_one _) (two_zpow_pos exponent)
  generalize isPlace :
    Format.binary64.targetExponent (totalExponent mantissa exponent) = place
    at grid
  have fine : exponent - (exponent - place).toNat ≤ place := by omega
  have scaled : ∀ count : ℕ, ((mantissa <<< count : ℕ) : ℚ) =
      mantissa * 2 ^ exponent / 2 ^ (exponent - count) := by
    intro count
    rw [Nat.shiftLeft_eq, zpow_sub₀ (by norm_num), zpow_natCast]
    push_cast
    field_simp
  have exact := describes_exact (mantissa <<< (exponent - place).toNat)
  rw [scaled] at exact
  simp only [UnpackedFloat.round, isPlace, decreaseExponent]
  exact isRounded_roundWithAccuracy sign exact grid fine

end Photoplot.Binary64
