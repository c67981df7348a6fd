import Photoplot.Proofs.Binary64.Length
import Photoplot.Proofs.Scalar.Counting

/-! # Floats as counts

A count that is written as a float is rounded to the nearest whole number without a loss,
and comes back as that natural number. Against the number of things that are there it is
compared as a float: since rounding keeps the order, the comparison never fails where it
should hold, and up to 53 bits it never holds where it should fail. -/

namespace Photoplot.Binary64

open Float.Model Float.Model.UnpackedFloat

/-! ## Rounding keeps the order -/

theorem IsRounded.limit_eq_infinity {sign : Sign} {size : ℚ} {float : UnpackedFloat}
    (rounded : IsRounded sign size float) (beyond : overflowThreshold ≤ size) :
    limit float = .infinity sign := by
  have notFinite := mt rounded.isFinite_iff.mp (not_lt.mpr beyond)
  obtain ⟨place, mantissa, -, -, rfl⟩ := rounded
  unfold assemble at notFinite ⊢
  by_cases some : 0 < mantissa
  · rw [dif_pos some] at notFinite ⊢
    by_cases short : mantissa < 2 ^ 53
    · rw [if_pos short] at notFinite ⊢
      exact if_pos (not_le.mp (mt isFinite_limit_iff.mpr notFinite))
    · rw [if_neg short] at notFinite ⊢
      exact if_pos (not_le.mp (mt isFinite_limit_iff.mpr notFinite))
  · rw [dif_neg some] at notFinite
    exact absurd rfl notFinite

theorem le_of_unpack_eq_infinity {x y : Float} (comparable : x ≤ x)
    (infinite : y.toModel.unpack = .infinity .positive) : x ≤ y := by
  rw [le_self_iff] at comparable
  rw [le_iff_place, place?, place?, infinite]
  rcases unpacked : x.toModel.unpack with
      (_ | _) | _ | _ | ⟨_ | _, mantissa, place, positive⟩
  case notANumber => exact absurd unpacked comparable
  all_goals simp [placeUnpacked?, Prod.Lex.toLex_le_toLex]

theorem IsFloatOf.le {value other : ℚ} {x y : Float} (isFloatOf : IsFloatOf value x)
    (otherIsFloatOf : IsFloatOf other y) (ordered : value ≤ other) : x ≤ y := by
  have comparable := isFloatOf.comparable
  obtain ⟨rounded, isRounded, unpacked⟩ := isFloatOf
  obtain ⟨rounded', isRounded', unpacked'⟩ := otherIsFloatOf
  rcases lt_or_ge other overflowThreshold with inRange | beyond
  · rw [isRounded.limit_eq (ordered.trans_lt inRange)] at unpacked
    rw [isRounded'.limit_eq inRange] at unpacked'
    obtain ⟨low, isLow, high, isHigh, below⟩ := isRounded.mono isRounded' ordered
    have stands : HasValue x low := by
      rw [HasValue, unpacked, isRounded.value_eq, isLow]
      rfl
    have stands' : HasValue y high := by
      rw [HasValue, unpacked', isRounded'.value_eq, isHigh]
      rfl
    exact (stands.le_iff stands').mpr below
  · apply le_of_unpack_eq_infinity comparable
    rw [unpacked', isRounded'.limit_eq_infinity beyond]

/-- The size of a float is rounded to itself. -/
theorem IsFloatOf.hasValue {value : ℚ} {x : Float} (isFloatOf : IsFloatOf value x)
    (isSize : IsSize value) : HasValue x value := by
  obtain ⟨rounded, isRounded, unpacked⟩ := isFloatOf
  obtain ⟨reached, isReached, -, atMost, atLeast⟩ := isRounded.between isSize le_rfl
  rw [HasValue, unpacked, isReached, le_antisymm atMost (atLeast value isSize le_rfl)]
  rfl

theorem Rounds.isFloatOf {value : ℚ} {float : UnpackedFloat} (rounds : Rounds value float)
    (isPositive : 0 < value) {x : Float}
    (packed : x.toModel.unpack = (Float.Model.pack float).unpack) :
    IsFloatOf value x := by
  obtain ⟨sign, size, nonneg, rfl, rounded⟩ := rounds
  cases sign with
  | positive => exact isFloatOf_pack rounded packed
  | negative => exact absurd isPositive (not_lt.mpr (neg_nonpos.mpr nonneg))

/-! ## Natural numbers -/

theorem isSize_natCast {number : ℕ} (few : number ≤ 2 ^ 53) : IsSize number := by
  rcases Nat.eq_zero_or_pos number with rfl | some
  · exact isSize_zero
  rcases few.lt_or_eq with less | rfl
  · have least : (1 : ℚ) ≤ number := by exact_mod_cast some
    have most : (number : ℚ) ≤ 2 ^ (53 : ℤ) := by exact_mod_cast few
    have whole : (number : ℚ) = number * 2 ^ (0 : ℤ) := by rw [zpow_zero, mul_one]
    rw [whole]
    apply isSize_mul less
    · rw [← whole]
      exact (zpow_le_one_of_nonpos₀ (by norm_num) (by norm_num)).trans least
    · rw [← whole]
      exact (most.trans_lt (two_zpow_lt.mpr (by norm_num))).trans_le
        two_zpow_le_overflowThreshold
  · have power : IsBound (2 ^ (53 : ℤ)) := isBound_power (by norm_num) (by norm_num)
    rw [IsBound, abs_of_pos (two_zpow_pos 53)] at power
    exact_mod_cast power

theorem hasValue_ofNat {number : ℕ} (few : number ≤ 2 ^ 53) :
    HasValue (Float.ofNat number) number :=
  (isFloatOf_ofNat number).hasValue (isSize_natCast few)

theorem HasValue.abs_mem_size {x : Float} {value : ℚ} (stands : HasValue x value) :
    |value| ∈ size? x.toModel.unpack := by
  rcases stands.cases with ⟨sign, unpacked, rfl⟩ |
    ⟨sign, mantissa, place, canonical, -, unpacked, rfl⟩
  · rw [unpacked, abs_zero]
    rfl
  · rw [unpacked, abs_signed canonical.size_pos.le]
    rfl

/-- What is not above the float of a natural number is not above twice that number. -/
theorem le_two_mul_of_le_ofNat {x : Float} {value : ℚ} {number : ℕ}
    (stands : HasValue x value)
    (ordered : x ≤ Float.ofNat number) : value ≤ 2 * number := by
  rcases lt_or_ge (number : ℚ) overflowThreshold with inRange | beyond
  · obtain ⟨size, isSize, atMost⟩ := exists_size_ofNat inRange
    have finite : (Float.ofNat number).isFinite = true :=
      isFinite_iff_size.mpr (Option.isSome_of_mem isSize)
    obtain ⟨other, otherStands⟩ := isFinite_iff_hasValue.mp finite
    rcases Option.mem_unique isSize otherStands.abs_mem_size with rfl
    exact ((stands.le_iff otherStands).mp ordered).trans
      ((le_abs_self other).trans atMost)
  · have below := size_lt_overflowThreshold stands.abs_mem_size
    have nonneg : (0 : ℚ) ≤ number := Nat.cast_nonneg number
    linarith [le_abs_self value]

/-! ## One more -/

theorem hasValue_zero : HasValue 0.0 0 := rfl

theorem hasValue_one : HasValue 1.0 1 := by
  have power : HasValue 1.0 (2 ^ (0 : ℤ)) := @hasValue_power _ 0 (by decide) rfl
  rwa [zpow_zero] at power

theorem HasValue.nonneg_iff {x : Float} {value : ℚ} (stands : HasValue x value) :
    0.0 ≤ x ↔ 0 ≤ value :=
  hasValue_zero.le_iff stands

section

variable {x : Float} {count : ℕ} (stands : HasValue x count)

include stands

theorem isFloatOf_succ : IsFloatOf (count + 1) (x + 1.0) :=
  (rounds_add stands hasValue_one).isFloatOf count.cast_add_one_pos (unpack_add x 1.0)

variable {number : ℕ}

theorem add_one_le_ofNat (enough : count + 1 ≤ number) : x + 1.0 ≤ Float.ofNat number :=
  (isFloatOf_succ stands).le (isFloatOf_ofNat number) (by exact_mod_cast enough)

/-- Below 53 bits, one more than the number is a float as well. -/
theorem add_one_le_of_le_ofNat (few : number < 2 ^ 53)
    (ordered : x + 1.0 ≤ Float.ofNat number) :
    count + 1 ≤ number := by
  by_contra exceeds
  have next : Float.ofNat (number + 1) ≤ x + 1.0 :=
    (isFloatOf_ofNat (number + 1)).le (isFloatOf_succ stands)
      (by exact_mod_cast not_le.mp exceeds)
  have crossed := Scalar.Ordered.le_trans next ordered
  rw [(hasValue_ofNat few).le_iff (hasValue_ofNat few.le)] at crossed
  have impossible : number + 1 ≤ number := by exact_mod_cast crossed
  omega

theorem le_two_mul_of_add_one_le (ordered : x + 1.0 ≤ Float.ofNat number) :
    count ≤ 2 * number := by
  have nonneg : 0.0 ≤ x := stands.nonneg_iff.mpr count.cast_nonneg
  have below := Scalar.Ordered.le_trans (le_add_of_nonneg nonneg (by decide)) ordered
  exact_mod_cast le_two_mul_of_le_ofNat stands below

end

/-! ## Rounding to a natural number -/

/-- The value of a number with a fraction, over a power of two. -/
theorem mul_two_zpow_negSucc (mantissa power : ℕ) :
    (mantissa * 2 ^ (Int.negSucc power) : ℚ) = mantissa / (2 ^ (power + 1) : ℕ) := by
  rw [zpow_negSucc, div_eq_mul_inv]
  push_cast
  rfl

theorem nearest_eq_floor (negative : Bool) (mantissa power : ℕ) :
    Binary.nearest ⟨negative, mantissa, .negSucc power⟩ =
      ⌊(mantissa * 2 ^ (Int.negSucc power) : ℚ) + 1 / 2⌋₊ := by
  have half : (mantissa / (2 ^ (power + 1) : ℕ) : ℚ) + 1 / 2 =
      (mantissa + 2 ^ power : ℕ) / (2 ^ (power + 1) : ℕ) := by
    have some := two_zpow_pos power
    push_cast
    rw [pow_succ]
    field_simp
  rw [mul_two_zpow_negSucc, half, Nat.floor_div_eq_div]
  simp only [Binary.nearest, Nat.shiftRight_eq_div_pow, Nat.shiftLeft_eq, one_mul]

theorem ceiling_eq_ceil (mantissa power : ℕ) :
    Binary.ceiling ⟨false, mantissa, .negSucc power⟩ =
      ⌈(mantissa * 2 ^ (Int.negSucc power) : ℚ)⌉₊ := by
  have some : 0 < 2 ^ (power + 1) := Nat.two_pow_pos (power + 1)
  have some' : (0 : ℚ) < (2 ^ (power + 1) : ℕ) := by exact_mod_cast some
  simp only [Binary.ceiling, Bool.false_eq_true, if_false, Nat.shiftRight_eq_div_pow,
    Nat.shiftLeft_eq, one_mul]
  refine eq_of_forall_ge_iff fun count => ?_
  rw [Nat.div_le_iff_le_mul_add_pred some, mul_two_zpow_negSucc, Nat.ceil_le,
    div_le_iff₀ some', ← Nat.cast_mul, Nat.cast_le, mul_comm count]
  omega

theorem mul_two_zpow_ofNat (mantissa power : ℕ) :
    (mantissa * 2 ^ (Int.ofNat power) : ℚ) = (mantissa <<< power : ℕ) := by
  rw [Nat.shiftLeft_eq]
  push_cast
  rfl

theorem HasValue.exists_binary {x : Float} {value : ℚ} (stands : HasValue x value) :
    ∃ sign mantissa place, mantissa < 2 ^ 53 ∧
      Binary.ofFloat? x = some ⟨sign == .negative, mantissa, place⟩ ∧
      value = signed sign (mantissa * 2 ^ place) := by
  rcases stands.cases with ⟨sign, unpacked, rfl⟩ |
    ⟨sign, mantissa, place, canonical, -, unpacked, rfl⟩
  · refine ⟨sign, 0, -1074, Nat.two_pow_pos 53, ?_, ?_⟩
    · rw [ofFloat_eq, unpacked]
      rfl
    · rw [Nat.cast_zero, zero_mul]
      cases sign with
      | positive => rfl
      | negative => exact neg_zero.symm
  · refine ⟨sign, mantissa, place, canonical.small, ?_, rfl⟩
    rw [ofFloat_eq, unpacked]
    rfl

section

variable {x : Float} {value : ℚ} (stands : HasValue x value)

include stands

/-- Rounding a value that is not negative is exact, and a half goes up. -/
theorem HasValue.round (nonneg : 0 ≤ value) : HasValue (round x) ⌊value + 1 / 2⌋₊ := by
  obtain ⟨sign, mantissa, place, short, isBinary, isSigned⟩ := stands.exists_binary
  have size : (0 : ℚ) ≤ mantissa * 2 ^ place :=
    mul_nonneg (Nat.cast_nonneg _) (two_zpow_pos place).le
  have isValue : value = mantissa * 2 ^ place := by
    rw [← abs_of_nonneg nonneg, isSigned, abs_signed size]
  cases place with
  | ofNat power =>
      have still : ⌊value + 1 / 2⌋₊ = mantissa <<< power := by
        rw [isValue, mul_two_zpow_ofNat, Nat.floor_eq_iff (by positivity)]
        constructor
        · linarith
        · linarith
      rw [round_of_whole isBinary (Int.natCast_nonneg power), still, ← mul_two_zpow_ofNat,
        ← isValue]
      exact stands
  | negSucc power =>
      have whole := hasValue_ofNat (nearest_le (sign == .negative) power short)
      rw [round_of_fraction isBinary (Int.negSucc_lt_zero power)]
      rw [nearest_eq_floor, ← isValue] at whole ⊢
      cases sign with
      | positive => exact whole
      | negative =>
          have isZero : ⌊value + 1 / 2⌋₊ = 0 := by
            change value = -_ at isSigned
            exact Nat.floor_eq_zero.mpr (by linarith)
          rw [isZero, Nat.cast_zero] at whole ⊢
          exact whole.neg

/-- The least natural number that is not below the value. -/
theorem HasValue.ceilNat_eq : ceilNat x = ⌈value⌉₊ := by
  obtain ⟨sign, mantissa, place, -, isBinary, rfl⟩ := stands.exists_binary
  rw [ceilNat, isBinary]
  cases sign with
  | negative =>
      have size : (0 : ℚ) ≤ mantissa * 2 ^ place :=
        mul_nonneg (Nat.cast_nonneg _) (two_zpow_pos place).le
      exact (Nat.ceil_eq_zero.mpr (neg_nonpos.mpr size)).symm
  | positive =>
      cases place with
      | ofNat power =>
          change mantissa <<< power = ⌈(mantissa * 2 ^ (Int.ofNat power) : ℚ)⌉₊
          rw [mul_two_zpow_ofNat, Nat.ceil_natCast]
      | negSucc power => exact ceiling_eq_ceil mantissa power

end

end Photoplot.Binary64
