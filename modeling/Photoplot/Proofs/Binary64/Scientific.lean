import Photoplot.Proofs.Binary64.Quotient
import Photoplot.Proofs.Number.Shortest

/-! # Decimals as floats

A decimal is read as the float nearest to it. Short decimals go through a table of
powers of ten, all others through one long product or quotient; the estimates that
settle decimals far out of range leave the others alone. -/

namespace Photoplot.Binary64

open Float.Model Float.Model.UnpackedFloat

/-! ## Natural numbers and powers of ten -/

theorem unpack_toFloat {number : ℕ} (some : number ≠ 0) (small : number < 2 ^ 53) :
    ∃ (mantissa : ℕ) (place : ℤ) (positive : 0 < mantissa),
      number.toUInt64.toFloat.toModel.unpack = .finite .positive mantissa place positive ∧
        2 ^ 52 ≤ mantissa ∧ (mantissa * 2 ^ place : ℚ) = number := by
  rcases exists_canonical some small with
      ⟨mantissa, place, canonical, normal, whole, value⟩
  refine ⟨mantissa, place, canonical.positive, ?_, normal, value⟩
  have kept : number.toUInt64.toNat = number := Nat.mod_eq_of_lt (by omega)
  have rounded := isRounded_round .positive 0 some
  rw [zpow_zero, mul_one, ← value] at rounded
  calc number.toUInt64.toFloat.toModel.unpack
      = (Float.Model.pack (UnpackedFloat.normalize .binary64 (number.toUInt64.toNat : ℕ) 0
          .positive)).unpack := rfl
    _ = (Float.Model.pack
        (.finite .positive mantissa place canonical.positive)).unpack := by
        rw [kept, normalize_natCast some, rounded.unique (canonical.isRounded .positive)]
    _ = .finite .positive mantissa place canonical.positive :=
        unpack_pack_finite .positive canonical (by omega)

def IsPower (exponent : ℕ) : UnpackedFloat → Prop
  | .finite .positive mantissa place _ =>
      2 ^ 52 ≤ mantissa ∧ 0 ≤ place + 52 ∧
        mantissa * 2 ^ (place + 52).toNat = 10 ^ exponent * 2 ^ 52
  | _ => False

instance (exponent : ℕ) (float : UnpackedFloat) : Decidable (IsPower exponent float) := by
  unfold IsPower
  split <;> infer_instance

/-- The powers of ten up to the 22nd are floats. -/
theorem isPower_powersOfTen : ∀ exponent : Fin 23,
    IsPower exponent
      (Float.exactlyRepresentablePowersOfTen[exponent]).toModel.unpack := by
  decide

theorem IsPower.exists_finite {exponent : ℕ} {float : UnpackedFloat}
    (power : IsPower exponent float) :
    ∃ (mantissa : ℕ) (place : ℤ) (positive : 0 < mantissa),
      float = .finite .positive mantissa place positive ∧ 2 ^ 52 ≤ mantissa ∧
        (mantissa * 2 ^ place : ℚ) = 10 ^ exponent := by
  match float with
  | .finite .positive mantissa place positive =>
      rcases power with ⟨normal, least, value⟩
      refine ⟨mantissa, place, positive, rfl, normal, ?_⟩
      have scaled : (mantissa * 2 ^ (place + 52) : ℚ) = 10 ^ exponent * 2 ^ 52 := by
        rw [← Int.toNat_of_nonneg least, zpow_natCast]
        exact_mod_cast value
      rw [two_zpow_add, ← mul_assoc] at scaled
      exact mul_right_cancel₀ (by norm_num) scaled

/-! ## Reading -/

/-- The float nearest to a positive value, or infinity when that is too large. -/
def IsFloatOf (value : ℚ) (float : Float) : Prop :=
  ∃ rounded, IsRounded .positive value rounded ∧ float.toModel.unpack = limit rounded

theorem isFloatOf_pack {value : ℚ} {rounded : UnpackedFloat}
    (isRounded : IsRounded .positive value rounded) {float : Float}
    (isFloat : float.toModel.unpack = (Float.Model.pack rounded).unpack) :
    IsFloatOf value float :=
  ⟨rounded, isRounded, isFloat.trans isRounded.unpack_pack⟩

section

variable {digits exponent : ℕ} (some : digits ≠ 0) (few : digits < 2 ^ 53)
  (inside : exponent < Float.exactlyRepresentablePowersOfTen.size)

include some few

theorem isFloatOf_mul_power :
    IsFloatOf (digits * 10 ^ exponent)
      (digits.toUInt64.toFloat * Float.exactlyRepresentablePowersOfTen[exponent]) := by
  rcases unpack_toFloat some few with ⟨mantissa, place, positive, unpacked, normal, value⟩
  rcases (isPower_powersOfTen ⟨exponent, inside⟩).exists_finite with
    ⟨mantissa', place', positive', unpacked', normal', value'⟩
  have product : (digits * 10 ^ exponent : ℚ) =
      (mantissa * mantissa' : ℕ) * 2 ^ (place + place') := by
    rw [← value, ← value', two_zpow_add]
    push_cast
    ring
  have long : 2 ^ 52 ≤ mantissa * mantissa' := by
    calc 2 ^ 52 = 2 ^ 52 * 1 := (mul_one _).symm
      _ ≤ mantissa * mantissa' := Nat.mul_le_mul normal positive'
  rw [product]
  apply isFloatOf_pack
    (isRounded_mul .positive .positive place place' positive positive' (.inl long))
  rw [unpack_mul, unpacked, ← unpacked']
  rfl

theorem isFloatOf_div_power :
    IsFloatOf (digits / 10 ^ exponent)
      (digits.toUInt64.toFloat / Float.exactlyRepresentablePowersOfTen[exponent]) := by
  rcases unpack_toFloat some few with ⟨mantissa, place, positive, unpacked, normal, value⟩
  rcases (isPower_powersOfTen ⟨exponent, inside⟩).exists_finite with
    ⟨mantissa', place', positive', unpacked', normal', value'⟩
  rw [← value, ← value']
  apply isFloatOf_pack (isRounded_div .positive .positive place place' positive positive')
  rw [unpack_div, unpacked, ← unpacked']
  rfl

end

theorem isRounded_ofScientific {digits : ℕ} {exponent : ℤ} (some : digits ≠ 0)
    (notAbove : exponent ≤ 2 ^ 11) (notBelow : -(2 ^ 11 + digits.log2 : ℤ) ≤ exponent) :
    IsRounded .positive (digits * 10 ^ exponent)
      (UnpackedFloat.ofScientific .binary64 digits exponent) := by
  have positive : 0 < digits := Nat.pos_of_ne_zero some
  unfold UnpackedFloat.ofScientific
  rw [dif_neg some, if_neg (not_lt.mpr notAbove), if_neg (not_lt.mpr notBelow)]
  split
  · rename_i nonneg
    have product : (digits * 10 ^ exponent : ℚ) =
        (digits <<< 53 * 10 ^ exponent.toNat : ℕ) * 2 ^ (-53 + 0 : ℤ) := by
      have power : (10 : ℚ) ^ exponent = 10 ^ exponent.toNat := by
        rw [← zpow_natCast, Int.toNat_of_nonneg nonneg]
      have unit : (2 : ℚ) ^ (-53 + 0 : ℤ) = (2 ^ 53)⁻¹ := by norm_num
      rw [power, unit, Nat.shiftLeft_eq]
      push_cast
      field_simp
      norm_num
    have long : 2 ^ 52 ≤ digits <<< 53 * 10 ^ exponent.toNat := by
      rw [Nat.shiftLeft_eq]
      calc 2 ^ 52 ≤ 1 * 2 ^ 53 * 1 := by norm_num
        _ ≤ digits * 2 ^ 53 * 10 ^ exponent.toNat :=
            Nat.mul_le_mul (Nat.mul_le_mul_right _ positive) (Nat.pow_pos (by norm_num))
    rw [product]
    exact isRounded_mul .positive .positive (-53) 0 _ _ (.inl long)
  · rename_i negative
    have quotient : (digits * 10 ^ exponent : ℚ) =
        digits * 2 ^ (0 : ℤ) / ((10 ^ (-exponent).toNat : ℕ) * 2 ^ (0 : ℤ)) := by
      have power : (10 : ℚ) ^ exponent = (10 ^ (-exponent).toNat)⁻¹ := by
        rw [← zpow_natCast, Int.toNat_of_nonneg (by omega), zpow_neg, inv_inv]
      rw [power]
      push_cast
      rw [mul_one, mul_one, div_eq_mul_inv]
    rw [quotient]
    exact isRounded_div .positive .positive 0 0 _ _

/-- Both ways of reading a decimal that is not far out of range. -/
theorem isFloatOf_ofScientific {digits : ℕ} {exponent : ℤ} (some : digits ≠ 0)
    (notAbove : exponent ≤ 2 ^ 11) (notBelow : -(2 ^ 11 + digits.log2 : ℤ) ≤ exponent) :
    IsFloatOf (digits * 10 ^ exponent)
      (Float.ofScientific digits (decide (exponent < 0)) exponent.natAbs) := by
  unfold Float.ofScientific
  split
  · rename_i short
    by_cases negative : exponent < 0
    · have power : (10 : ℚ) ^ exponent = (10 ^ exponent.natAbs)⁻¹ := by
        rw [← zpow_natCast, ← zpow_neg]
        congr 1
        omega
      rw [power, ← div_eq_mul_inv, if_pos (decide_eq_true negative)]
      exact isFloatOf_div_power some short.1 _
    · have power : (10 : ℚ) ^ exponent = 10 ^ exponent.natAbs := by
        rw [← zpow_natCast]
        congr 1
        omega
      rw [power, if_neg (by simpa using negative)]
      exact isFloatOf_mul_power some short.1 _
  · have restored : (if decide (exponent < 0) = true then Int.negOfNat exponent.natAbs
        else Int.ofNat exponent.natAbs) = exponent := by
      split
      · rename_i negative
        have isNegative := of_decide_eq_true negative
        rw [Int.negOfNat_eq, Int.ofNat_eq_natCast]
        omega
      · rename_i notNegative
        have nonneg : ¬exponent < 0 :=
            fun negative => notNegative (decide_eq_true negative)
        exact Int.natAbs_of_nonneg (not_lt.mp nonneg)
    simp only [restored]
    exact isFloatOf_pack (isRounded_ofScientific some notAbove notBelow) rfl

theorem isFloatOf_ofNat (number : ℕ) : IsFloatOf number (Float.ofNat number) := by
  rcases eq_or_ne number 0 with rfl | some
  · exact ⟨.zero .positive, isRounded_zero .positive, rfl⟩
  · have isFloatOf := @isFloatOf_ofScientific number 0 some (by norm_num) (by omega)
    rwa [zpow_zero, mul_one] at isFloatOf

/-! ## Estimates -/

section

variable {digits : ℕ} {exponent : ℤ}

theorem ten_zpow_eq_mul (place exponent : ℤ) :
    (10 : ℚ) ^ place = 10 ^ (place - exponent) * 10 ^ exponent := by
  rw [← zpow_add₀ (by norm_num), sub_add_cancel]

/-- What the estimate takes for too large is so. -/
theorem ten_zpow_le_of_estimate (some : digits ≠ 0)
    (large : (310 * 100000 : ℤ) < digits.log2 * 30102 + exponent * 100000) :
    (10 : ℚ) ^ (310 : ℤ) ≤ digits * 10 ^ exponent := by
  have power : (10 : ℚ) ^ (310 - exponent) ≤ 2 ^ (digits.log2 : ℤ) :=
    ten_zpow_le_two_zpow (by omega) (by omega)
  rw [ten_zpow_eq_mul 310 exponent]
  exact mul_le_mul_of_nonneg_right (power.trans (two_zpow_log2_le some))
    (zpow_pos (by norm_num) _).le

/-- What the estimate takes for too small is so. -/
theorem lt_ten_zpow_of_estimate
    (small : (digits.log2 + 1 : ℤ) * 30103 + exponent * 100000 < -330 * 100000) :
    (digits * 10 ^ exponent : ℚ) < 10 ^ (-330 : ℤ) := by
  have high := (lt_add_one (digits : ℚ)).trans_le (add_one_le_two_zpow_log2 digits)
  have power : (2 : ℚ) ^ (digits.log2 + 1 : ℤ) ≤ 10 ^ (-330 - exponent) :=
    two_zpow_le_ten_zpow (by omega) (by omega)
  rw [ten_zpow_eq_mul (-330) exponent]
  exact mul_lt_mul_of_pos_right (high.trans_le power) (zpow_pos (by norm_num) _)

end

/-- A decimal is read as the nearest float, unless it is far out of range. -/
theorem isFloatOf_ofDecimal {digits : ℕ} {exponent : ℤ} (some : digits ≠ 0)
    (above : (10 : ℚ) ^ (-330 : ℤ) ≤ digits * 10 ^ exponent)
    (below : (digits * 10 ^ exponent : ℚ) < 10 ^ (310 : ℤ)) :
    IsFloatOf (digits * 10 ^ exponent) (ofDecimal false digits exponent) := by
  have notLarge : ¬(310 * 100000 : ℤ) < digits.log2 * 30102 + exponent * 100000 :=
    fun large => absurd (ten_zpow_le_of_estimate some large) (not_le.mpr below)
  have notSmall :
      ¬(digits.log2 + 1 : ℤ) * 30103 + exponent * 100000 < -330 * 100000 :=
    fun small => absurd (lt_ten_zpow_of_estimate small) (not_lt.mpr above)
  unfold ofDecimal
  simp only [some, notLarge, notSmall, Bool.false_eq_true, if_false]
  exact isFloatOf_ofScientific some (by omega) (by omega)

end Photoplot.Binary64
