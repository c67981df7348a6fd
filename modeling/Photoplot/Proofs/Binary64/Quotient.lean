import Photoplot.Proofs.Binary64.Sum

/-! # Products and quotients of floats

Products of long mantissas and all quotients are rounded to the nearest float: they
keep enough bits for that. Every other product is at least a number, as all results
are that come out of two values which are. -/

namespace Photoplot.Binary64

open Float.Model Float.Model.UnpackedFloat

/-! ## Grids of positive values -/

theorem exists_isGrid {value : ℚ} (positive : 0 < value) :
    ∃ place, IsGrid value place := by
  have low : (2 : ℚ) ^ Int.log 2 value ≤ value := by
    exact_mod_cast Int.zpow_log_le_self (by norm_num : 1 < 2) positive
  have high : value < (2 : ℚ) ^ (Int.log 2 value + 1) := by
    exact_mod_cast Int.lt_zpow_succ_log_self (by norm_num : 1 < 2) value
  refine ⟨max (Int.log 2 value - 52) (-1074), le_max_right _ _, ?_, ?_⟩
  · exact high.trans_le (two_zpow_le.mpr (by omega))
  · rcases le_total (-1074) (Int.log 2 value - 52) with normal | subnormal
    · right
      exact (two_zpow_le.mpr (by omega)).trans low
    · left
      exact max_eq_right subnormal

/-- A unit with 52 bits more below the value is fine enough for its grid. -/
theorem IsGrid.le_place {value : ℚ} {place unit : ℤ} (grid : IsGrid value place)
    (long : 2 ^ (unit + 52) ≤ value) : unit ≤ place := by
  have powers := two_zpow_lt.mp (long.trans_lt grid.below)
  omega

/-- A float is the rounding of its own value. -/
theorem IsCanonical.isRounded (sign : Sign) {mantissa : ℕ} {place : ℤ}
    (canonical : IsCanonical mantissa place) :
    IsRounded sign (mantissa * 2 ^ place)
      (.finite sign mantissa place canonical.positive) := by
  refine ⟨place, mantissa, canonical.isGrid, ?_, ?_⟩
  · rw [mul_div_cancel_right₀ _ (two_zpow_pos place).ne']
    exact isNearest_natCast mantissa
  · rw [assemble, dif_pos canonical.positive, if_pos canonical.small]

/-- Integers of 53 bits are floats. -/
theorem exists_canonical {number : ℕ} (some : number ≠ 0) (small : number < 2 ^ 53) :
    ∃ (mantissa : ℕ) (place : ℤ), IsCanonical mantissa place ∧ 2 ^ 52 ≤ mantissa ∧
      place ≤ 0 ∧ (mantissa * 2 ^ place : ℚ) = number := by
  have short : number.log2 ≤ 52 := by
    have fewer := (Nat.log2_lt some).mpr small
    omega
  have low := Nat.log2_self_le some
  have high := @Nat.lt_log2_self number
  have shifted : (number * 2 ^ (52 - number.log2) : ℚ) * 2 ^
      (number.log2 - 52 : ℤ) = number := by
    rw [mul_assoc, ← zpow_natCast, ← two_zpow_add]
    have none : ((52 - number.log2 : ℕ) : ℤ) + (number.log2 - 52) = 0 := by omega
    rw [none, zpow_zero, mul_one]
  have normal : 2 ^ 52 ≤ number * 2 ^ (52 - number.log2) := by
    calc 2 ^ 52 = 2 ^ number.log2 * 2 ^ (52 - number.log2) := by
          rw [← pow_add, Nat.add_sub_cancel' short]
      _ ≤ number * 2 ^ (52 - number.log2) := Nat.mul_le_mul_right _ low
  have full : number * 2 ^ (52 - number.log2) < 2 ^ 53 := by
    calc number * 2 ^ (52 - number.log2)
        < 2 ^ (number.log2 + 1) * 2 ^ (52 - number.log2) :=
          Nat.mul_lt_mul_of_pos_right high (Nat.two_pow_pos _)
      _ = 2 ^ 53 := by
          rw [← pow_add]
          congr 1
          omega
  refine ⟨number * 2 ^ (52 - number.log2), number.log2 - 52,
    ⟨by omega, full, by omega, .inr normal⟩, normal, by omega, ?_⟩
  push_cast
  exact shifted

/-! ## Products -/

/-- A product with 53 bits or more, or with all that there are above the least place,
keeps them until it is rounded. -/
theorem isRounded_mul (sign sign' : Sign) {mantissa mantissa' : ℕ} (place place' : ℤ)
    (positive : 0 < mantissa) (positive' : 0 < mantissa')
    (long : 2 ^ 52 ≤ mantissa * mantissa' ∨ place + place' ≤ -1074) :
    IsRounded (sign * sign') ((mantissa * mantissa' : ℕ) * 2 ^ (place + place'))
      (UnpackedFloat.mul .binary64 (.finite sign mantissa place positive)
        (.finite sign' mantissa' place' positive')) := by
  have isPositive : (0 : ℚ) < (mantissa * mantissa' : ℕ) * 2 ^ (place + place') := by
    apply mul_pos _ (two_zpow_pos _)
    exact_mod_cast Nat.mul_pos positive positive'
  rcases exists_isGrid isPositive with ⟨target, grid⟩
  have exact := describes_exact (mantissa * mantissa')
  rw [← mul_div_cancel_right₀ ((mantissa * mantissa' : ℕ) : ℚ)
    (two_zpow_pos (place + place')).ne']
    at exact
  refine isRounded_roundWithAccuracy (sign * sign') exact grid ?_
  rcases long with long | fine
  · apply grid.le_place
    have bits : (2 : ℚ) ^ 52 ≤ (mantissa * mantissa' : ℕ) := by exact_mod_cast long
    rw [two_zpow_add, mul_comm]
    exact mul_le_mul_of_nonneg_right bits (two_zpow_pos _).le
  · exact fine.trans grid.least

/-! ## Quotients -/

/-- What is left of a value is more than nothing and less than one, and compared with a
half. -/
theorem describes_inexact (mantissa : ℕ) {part : ℚ} (positive : 0 < part)
    (less : part < 1) :
    Describes (.ofMantissaAndAccuracy mantissa (.inexact (compare part (1 / 2))))
      (mantissa + part) := by
  have low : (mantissa : ℚ) ≤ mantissa + part := le_add_of_nonneg_right positive.le
  have high : (mantissa + part : ℚ) < mantissa + 1 := add_lt_add_right less _
  have notWhole : (mantissa + part : ℚ) ≠ mantissa := by
    rw [Ne, add_eq_left]
    exact positive.ne'
  rcases lt_trichotomy part (1 / 2) with below | half | above
  · rw [compare_lt_iff_lt.mpr below]
    refine ⟨low, high, iff_of_false Bool.false_ne_true ?_, iff_of_true rfl ⟨notWhole, ?_⟩⟩
    · exact not_le.mpr (add_lt_add_right below _)
    · exact (add_lt_add_right below _).ne
  · rw [compare_eq_iff_eq.mpr half]
    refine ⟨low, high, iff_of_true rfl ?_, iff_of_false Bool.false_ne_true ?_⟩
    · rw [half]
      exact le_rfl
    · rintro ⟨-, other⟩
      exact other (congrArg _ half)
  · rw [compare_gt_iff_gt.mpr above]
    refine ⟨low, high, iff_of_true rfl ?_, iff_of_true rfl ⟨notWhole, ?_⟩⟩
    · exact (add_lt_add_right above _).le
    · exact (add_lt_add_right above _).ne'

/-- A quotient and what its remainder says about the residual bits. -/
theorem describes_quotient (dividend : ℕ) {divisor : ℕ} (some : 0 < divisor) :
    Describes (.ofMantissaAndAccuracy (dividend / divisor)
      (accuracyOfFraction (dividend % divisor) divisor)) (dividend / divisor : ℚ) := by
  have isPositive : (0 : ℚ) < divisor := by exact_mod_cast some
  have whole : (dividend / divisor : ℚ) =
      (dividend / divisor : ℕ) + (dividend % divisor : ℕ) / (divisor : ℚ) := by
    rw [add_div_eq_mul_add_div _ _ isPositive.ne']
    congr 1
    exact_mod_cast (Nat.div_add_mod' dividend divisor).symm
  have rest := Nat.mod_lt dividend some
  generalize dividend % divisor = left at whole rest
  rw [whole]
  unfold accuracyOfFraction
  split
  · rename_i none
    rw [none, Nat.cast_zero, zero_div, add_zero]
    exact describes_exact _
  · rename_i more
    have compared : compare (2 * left) divisor = compare
        (left / divisor : ℚ) (1 / 2) := by
      have half : (left / divisor : ℚ) < 1 / 2 ↔ 2 * left < divisor := by
        rw [div_lt_div_iff₀ isPositive (by norm_num), one_mul, mul_comm (left : ℚ)]
        exact_mod_cast Iff.rfl
      have isHalf : (left / divisor : ℚ) = 1 / 2 ↔ 2 * left = divisor := by
        rw [div_eq_div_iff isPositive.ne' (by norm_num), one_mul, mul_comm (left : ℚ)]
        exact_mod_cast Iff.rfl
      rcases lt_trichotomy (2 * left) divisor with below | same | above
      · rw [compare_lt_iff_lt.mpr below, compare_lt_iff_lt.mpr (half.mpr below)]
      · rw [compare_eq_iff_eq.mpr same, compare_eq_iff_eq.mpr (isHalf.mpr same)]
      · rw [compare_gt_iff_gt.mpr above, compare_gt_iff_gt.mpr]
        refine lt_of_le_of_ne (not_lt.mp fun less => ?_) fun equal => ?_
        · exact above.not_gt (half.mp less)
        · exact above.ne (isHalf.mp equal.symm).symm
    rw [compared]
    apply describes_inexact
    · exact div_pos (by exact_mod_cast Nat.pos_of_ne_zero more) isPositive
    · rw [div_lt_one isPositive]
      exact_mod_cast rest

/-- The logarithms of two mantissas tell the one of their quotient but for one bit. -/
theorem two_zpow_le_quotient {mantissa mantissa' : ℕ} (place : ℤ)
    (positive : 0 < mantissa) (positive' : 0 < mantissa') :
    (2 : ℚ) ^ ((mantissa.log2 : ℤ) - (mantissa'.log2 + 1) + place) ≤
      mantissa / mantissa' * 2 ^ place := by
  have high := (lt_add_one (mantissa' : ℚ)).le.trans (add_one_le_two_zpow_log2 mantissa')
  rw [two_zpow_add, zpow_sub₀ (by norm_num)]
  apply mul_le_mul_of_nonneg_right _ (two_zpow_pos _).le
  exact div_le_div₀ (Nat.cast_nonneg _) (two_zpow_log2_le positive.ne')
    (by exact_mod_cast positive')
    high

/-- The quotient is taken with enough bits for the grid of its value. -/
theorem isRounded_div (sign sign' : Sign) {mantissa mantissa' : ℕ} (place place' : ℤ)
    (positive : 0 < mantissa) (positive' : 0 < mantissa') :
    IsRounded (sign / sign') (mantissa * 2 ^ place / (mantissa' * 2 ^ place'))
      (UnpackedFloat.div .binary64 (.finite sign mantissa place positive)
        (.finite sign' mantissa' place' positive')) := by
  have value : (mantissa * 2 ^ place / (mantissa' * 2 ^ place') : ℚ) =
      mantissa / mantissa' * 2 ^ (place - place') := by
    rw [zpow_sub₀ (by norm_num)]
    field_simp
  have long := two_zpow_le_quotient (place - place') positive positive'
  rw [value]
  rcases exists_isGrid ((two_zpow_pos _).trans_le long) with ⟨target, grid⟩
  generalize isUnit : min (place - place') (Format.binary64.targetExponent
    (totalExponent mantissa place - totalExponent mantissa' place')) = unit
  have coarse : unit ≤ place - place' := isUnit ▸ min_le_left _ _
  have fine : unit ≤ target := by
    have bits : Format.binary64.targetExponent
        (totalExponent mantissa place - totalExponent mantissa' place') =
          max ((mantissa.log2 : ℤ) - (mantissa'.log2 + 1) + (place - place') -
            52) (-1074) := by
      simp only [Format.targetExponent, totalExponent, Format.mantissaBits,
        Format.minExponent]
      norm_num
      omega
    rw [bits] at isUnit
    refine (isUnit ▸ min_le_right _ _ : unit ≤ _).trans
      (max_le (grid.le_place ?_) grid.least)
    rwa [sub_add_cancel]
  have scaled : ((mantissa <<< (place - place' - unit).toNat : ℕ) / mantissa' : ℚ) =
      mantissa / mantissa' * 2 ^ (place - place') / 2 ^ unit := by
    have exponent : (((place - place' - unit).toNat : ℕ) : ℤ) =
        place - place' - unit := by omega
    rw [Nat.shiftLeft_eq, Nat.cast_mul, Nat.cast_pow, Nat.cast_ofNat, ← zpow_natCast,
      exponent, zpow_sub₀ (by norm_num) (place - place') unit]
    ring
  have described :=
      describes_quotient (mantissa <<< (place - place' - unit).toNat) positive'
  rw [scaled] at described
  simp only [UnpackedFloat.div, divCore, isUnit]
  exact isRounded_roundWithAccuracy (sign / sign') described grid fine

/-! ## Results that are numbers -/

theorem unpack_pack_ne_notANumber {float : UnpackedFloat} (number : float ≠ .notANumber) :
    (Float.Model.pack float).unpack ≠ .notANumber := by
  match float with
  | .notANumber => exact absurd rfl number
  | .infinity sign =>
      rw [unpack_pack_infinity]
      exact UnpackedFloat.noConfusion
  | .zero sign =>
      rw [unpack_pack_zero]
      exact UnpackedFloat.noConfusion
  | .finite sign mantissa place positive =>
      rcases lt_or_ge 971 place with outOfRange | inRange
      · rw [unpack_pack_overflow sign positive outOfRange]
        exact UnpackedFloat.noConfusion
      · have fields : ∀ field < 2047, ofFields sign (BitVec.ofNat 11 field)
            (BitVec.ofNat 52 mantissa) ≠ .notANumber := by
          intro field last undefined
          have same : BitVec.ofNat 52 mantissa = BitVec.ofNat 52 (mantissa % 2 ^ 52) := by
            apply BitVec.eq_of_toNat_eq
            simp
          have unpacks := unpacks_ofFields sign (by omega : field < 2 ^ 11)
            (Nat.mod_lt mantissa (by decide : 0 < 2 ^ 52))
          rw [← same, undefined] at unpacks
          generalize mantissa % 2 ^ 52 = fraction at unpacks
          cases unpacks
          exact absurd last (lt_irrefl _)
        have packed : (Float.Model.pack (.finite sign mantissa place positive)).unpack =
            UnpackedFloat.unpack .binary64
              (UnpackedFloat.pack .binary64 (.finite sign mantissa place positive)) := rfl
        rw [packed, pack_finite sign positive inRange]
        split
        · exact fields _ (by omega)
        · exact fields 0 (by omega)

theorem IsRounded.ne_notANumber {sign : Sign} {value : ℚ} {float : UnpackedFloat}
    (rounded : IsRounded sign value float) : float ≠ .notANumber := by
  rcases rounded with ⟨place, mantissa, -, -, rfl⟩
  unfold assemble
  split
  · split
    · exact UnpackedFloat.noConfusion
    · exact UnpackedFloat.noConfusion
  · exact UnpackedFloat.noConfusion

theorem roundWithAccuracy_ne_notANumber (sign : Sign) (mantissa : ℕ) (exponent : ℤ)
    (accuracy : Accuracy) :
    roundWithAccuracy .binary64 sign mantissa exponent accuracy ≠ .notANumber := by
  unfold roundWithAccuracy
  simp only
  split
  · exact UnpackedFloat.noConfusion
  · exact UnpackedFloat.noConfusion

theorem normalize_ne_notANumber (mantissa exponent : ℤ) (zeroSign : Sign) :
    UnpackedFloat.normalize .binary64 mantissa exponent zeroSign ≠ .notANumber := by
  unfold UnpackedFloat.normalize
  split
  · exact roundWithAccuracy_ne_notANumber _ _ _ _
  · exact UnpackedFloat.noConfusion
  · exact roundWithAccuracy_ne_notANumber _ _ _ _

section

variable {left right : UnpackedFloat}

/-- A sum is a number unless infinities are taken from each other. -/
theorem add_ne_notANumber (number : left ≠ .notANumber) (number' : right ≠ .notANumber)
    (finite : left.isFinite = true ∨ right.isFinite = true) :
    UnpackedFloat.add .binary64 left right ≠ .notANumber := by
  cases left with
  | notANumber => exact absurd rfl number
  | infinity sign =>
      cases right with
      | notANumber => exact absurd rfl number'
      | infinity sign' => exact absurd finite (by simp [UnpackedFloat.isFinite])
      | zero sign' => exact UnpackedFloat.noConfusion
      | finite sign' mantissa' place' positive' => exact UnpackedFloat.noConfusion
  | zero sign =>
      cases right with
      | notANumber => exact absurd rfl number'
      | infinity sign' => exact UnpackedFloat.noConfusion
      | zero sign' => cases sign <;> cases sign' <;> exact UnpackedFloat.noConfusion
      | finite sign' mantissa' place' positive' => exact UnpackedFloat.noConfusion
  | finite sign mantissa place positive =>
      cases right with
      | notANumber => exact absurd rfl number'
      | infinity sign' => exact UnpackedFloat.noConfusion
      | zero sign' => exact UnpackedFloat.noConfusion
      | finite sign' mantissa' place' positive' => exact normalize_ne_notANumber _ _ _

theorem neg_ne_notANumber (number : left ≠ .notANumber) : left.neg ≠ .notANumber := by
  cases left with
  | notANumber => exact absurd rfl number
  | infinity sign => exact UnpackedFloat.noConfusion
  | zero sign => exact UnpackedFloat.noConfusion
  | finite sign mantissa place positive => exact UnpackedFloat.noConfusion

variable {sign' : Sign} {mantissa' : ℕ} {place' : ℤ} {positive' : 0 < mantissa'}

theorem mul_ne_notANumber (number : left ≠ .notANumber) :
    UnpackedFloat.mul .binary64 left (.finite sign' mantissa' place' positive') ≠
      .notANumber := by
  cases left with
  | notANumber => exact absurd rfl number
  | infinity sign => exact UnpackedFloat.noConfusion
  | zero sign => exact UnpackedFloat.noConfusion
  | finite sign mantissa place positive => exact roundWithAccuracy_ne_notANumber _ _ _ _

theorem div_ne_notANumber (number : left ≠ .notANumber) :
    UnpackedFloat.div .binary64 left (.finite sign' mantissa' place' positive') ≠
      .notANumber := by
  cases left with
  | notANumber => exact absurd rfl number
  | infinity sign => exact UnpackedFloat.noConfusion
  | zero sign => exact UnpackedFloat.noConfusion
  | finite sign mantissa place positive => exact roundWithAccuracy_ne_notANumber _ _ _ _

end

end Photoplot.Binary64
