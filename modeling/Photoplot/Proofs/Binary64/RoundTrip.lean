import Photoplot.Proofs.Binary64.Scientific
import Photoplot.Proofs.Number.Decimal

/-! # Floats in writing

The plain layout of a float is read as that float again: its digits lie in the
interval of values that are rounded to it. -/

namespace Photoplot.Binary64

open Float.Model Float.Model.UnpackedFloat

/-! ## Fields of the bits -/

theorem toNat_packComponents (sign : Sign) {field fraction : ℕ}
    (fieldSmall : field < 2 ^ 11) (fractionSmall : fraction < 2 ^ 52) :
    (packComponents .binary64 sign (BitVec.ofNat 11 field)
      (BitVec.ofNat 52 fraction)).toNat =
      sign.toBitVec.toNat * 2 ^ 63 + field * 2 ^ 52 + fraction := by
  have keptField : (BitVec.ofNat 11 field).toNat = field := by
    rw [BitVec.toNat_ofNat, Nat.mod_eq_of_lt fieldSmall]
  have keptFraction : (BitVec.ofNat 52 fraction).toNat = fraction := by
    rw [BitVec.toNat_ofNat, Nat.mod_eq_of_lt fractionSmall]
  unfold packComponents
  rw [BitVec.toNat_append, BitVec.toNat_append, keptField, keptFraction,
    ← Nat.shiftLeft_add_eq_or_of_lt fractionSmall,
    ← Nat.shiftLeft_add_eq_or_of_lt fieldSmall, Nat.shiftLeft_eq, Nat.shiftLeft_eq]
  omega

def binary? : UnpackedFloat → Option Binary
  | .finite sign mantissa place _ => some ⟨sign == .negative, mantissa, place⟩
  | .zero sign => some ⟨sign == .negative, 0, -1074⟩
  | _ => none

theorem ofFloat_eq (x : Float) : Binary.ofFloat? x = binary? x.toModel.unpack := by
  rcases exists_unpacks x.toModel with
    ⟨sign, field, fraction, fieldSmall, fractionSmall, bits, unpacks⟩
  have isSum : x.toBits.toNat = sign.toBitVec.toNat * 2 ^ 63 +
      field * 2 ^ 52 + fraction := by
    rw [← toNat_packComponents sign fieldSmall fractionSmall, ← bits]
    rfl
  have isField : (x.toBits.toNat >>> 52) % (1 <<< 11) = field := by
    rw [isSum, Nat.shiftRight_eq_div_pow, Nat.shiftLeft_eq]
    omega
  have isFraction : x.toBits.toNat % (1 <<< 52) = fraction := by
    rw [isSum, Nat.shiftLeft_eq]
    omega
  have isSign : decide (1 <<< 63 ≤ x.toBits.toNat) = (sign == .negative) := by
    rw [isSum]
    cases sign with
    | negative =>
        have one : Sign.negative.toBitVec.toNat = 1 := rfl
        rw [one]
        apply decide_eq_true
        omega
    | positive =>
        have zero : Sign.positive.toBitVec.toNat = 0 := rfl
        rw [zero]
        apply decide_eq_false
        omega
  unfold Binary.ofFloat?
  simp only [isField, isFraction, isSign]
  generalize x.toModel.unpack = unpacked at unpacks
  cases unpacks with
  | infinity => rfl
  | notANumber some => rfl
  | zero => rfl
  | subnormal some => rfl
  | normal first last =>
      rw [if_neg last.ne, if_neg first.ne']
      rfl

/-! ## The interval of a float -/

/-- The interval is half a unit wide on either side, but below a power of two only a
quarter. -/
theorem quartersBelow_cases (negative : Bool) (mantissa : ℕ) (place : ℤ) :
    Shortest.Target.quartersBelow ⟨negative, mantissa, place⟩ = 1 ∧
        mantissa = 2 ^ 52 ∧ -1074 < place ∨
      Shortest.Target.quartersBelow ⟨negative, mantissa, place⟩ = 2 ∧
        (mantissa ≠ 2 ^ 52 ∨ place ≤ -1074) := by
  unfold Shortest.Target.quartersBelow
  split
  · rename_i narrow
    simp only [Bool.and_eq_true, beq_iff_eq, decide_eq_true_eq, Nat.shiftLeft_eq,
      one_mul] at narrow
    exact .inl ⟨rfl, narrow⟩
  · rename_i wide
    simp only [Bool.and_eq_true, beq_iff_eq, decide_eq_true_eq, Nat.shiftLeft_eq, one_mul,
      not_and_or, not_lt] at wide
    exact .inr ⟨rfl, wide⟩

/-- A value half a unit away at most, and on the grid of the float. -/
theorem IsCanonical.isRounded_of_near {mantissa : ℕ} {place : ℤ}
    (canonical : IsCanonical mantissa place) {value : ℚ}
    (nearest : IsNearest (value / 2 ^ place) mantissa)
    (above : place = -1074 ∨ ((2 ^ 52 : ℕ) : ℚ) ≤ value / 2 ^ place) :
    IsRounded .positive value (.finite .positive mantissa place canonical.positive) := by
  have grid : IsGrid value place := by
    refine isGrid_iff.mpr ⟨canonical.least, ?_, above⟩
    have near := (abs_le.mp nearest.near).2
    have small : (mantissa : ℚ) + 1 ≤ 2 ^ 53 := by exact_mod_cast canonical.small
    push_cast
    linarith
  refine ⟨place, mantissa, grid, nearest, ?_⟩
  rw [assemble, dif_pos canonical.positive, if_pos canonical.small]

/-- Just below a power of two the grid is finer, and the value is rounded up to it. -/
theorem isRounded_of_near_power {place : ℤ} (normal : -1074 < place) {value : ℚ}
    (near : ((2 ^ 52 : ℕ) : ℚ) - 1 / 4 ≤ value / 2 ^ place)
    (less : value / 2 ^ place < (2 ^ 52 : ℕ)) :
    IsRounded .positive value (.finite .positive (2 ^ 52) place (by decide)) := by
  have doubled : value / 2 ^ (place - 1) = value / 2 ^ place * 2 := by
    have finer : (2 : ℚ) ^ place = 2 ^ (place - 1) * 2 := by
      rw [← zpow_add_one₀ (by norm_num), sub_add_cancel]
    have positive := two_zpow_pos (place - 1)
    rw [finer]
    field_simp
  push_cast at near less
  refine ⟨place - 1, 2 ^ 53, isGrid_iff.mpr ⟨by omega, ?_, .inr ?_⟩,
    ⟨?_, fun _ => by norm_num⟩, ?_⟩
  · rw [doubled]
    push_cast
    linarith
  · rw [doubled]
    push_cast
    linarith
  · rw [doubled, abs_le]
    push_cast
    constructor
    · linarith
    · linarith
  · rw [assemble, dif_pos (by decide), if_neg (by decide)]
    congr 1
    omega

theorem isNearest_of_bounds {value : ℚ} {number : ℕ} (above : number - 1 / 2 ≤ value)
    (below : value ≤ number + 1 / 2)
    (ties : number % 2 = 0 ∨ (number - 1 / 2 < value ∧ value < number + 1 / 2)) :
    IsNearest value number := by
  refine ⟨abs_le.mpr ⟨by linarith, by linarith⟩, fun tie => ?_⟩
  rcases ties with even | ⟨strict, strict'⟩
  · exact even
  · have less : |value - number| < 1 / 2 := abs_lt.mpr ⟨by linarith, by linarith⟩
    exact absurd tie less.ne

/-- The interval in units of the mantissa. -/
theorem bounds_of_holds {number : Binary} (some : 0 < number.mantissa) {value : ℚ}
    (holds : (Shortest.Target.ofBinary number).Holds value) :
    (number.mantissa - Shortest.Target.quartersBelow number / 4 : ℚ) ≤
      value / 2 ^ number.exponent ∧
      value / 2 ^ number.exponent ≤ number.mantissa + 1 / 2 ∧
      (number.mantissa % 2 = 0 ∨
        ((number.mantissa - Shortest.Target.quartersBelow number / 4 : ℚ) <
            value / 2 ^ number.exponent ∧
          value / 2 ^ number.exponent < number.mantissa + 1 / 2)) := by
  have positive := two_zpow_pos number.exponent
  have quarter : (2 : ℚ) ^ (number.exponent - 2) = 2 ^ number.exponent / 4 := by
    rw [zpow_sub₀ (by norm_num)]
    norm_num
  have left : ∀ quarters : ℚ,
      (number.mantissa * 4 - quarters : ℚ) * (2 ^ number.exponent / 4) =
      (number.mantissa - quarters / 4) * 2 ^ number.exponent := fun quarters => by ring
  have right : (number.mantissa * 4 + 2 : ℚ) * (2 ^ number.exponent / 4) =
      (number.mantissa + 1 / 2) * 2 ^ number.exponent := by ring
  have bounds := (Shortest.Target.holds_ofBinary some value).mp holds
  simp only [quarter, left, right, beq_iff_eq, ← le_div_iff₀ positive,
    ← div_le_iff₀ positive, ← lt_div_iff₀ positive, ← div_lt_iff₀ positive] at bounds
  split at bounds
  · rename_i even
    exact ⟨bounds.1, bounds.2, .inl even⟩
  · exact ⟨bounds.1.le, bounds.2.le, .inr bounds⟩

/-- All values in the interval are rounded to the float in its middle. -/
theorem isRounded_of_holds (negative : Bool) {mantissa : ℕ} {place : ℤ}
    (canonical : IsCanonical mantissa place) {value : ℚ}
    (holds : (Shortest.Target.ofBinary ⟨negative, mantissa, place⟩).Holds value) :
    IsRounded .positive value (.finite .positive mantissa place canonical.positive) := by
  rcases bounds_of_holds canonical.positive holds with ⟨above, below, ties⟩
  simp only at above below ties
  rcases quartersBelow_cases negative mantissa place with
    ⟨isOne, isPower, normal⟩ | ⟨isTwo, regular⟩
  · subst isPower
    rw [isOne] at above
    rcases lt_or_ge (value / 2 ^ place) ((2 ^ 52 : ℕ) : ℚ) with less | notLess
    · exact isRounded_of_near_power normal (by exact_mod_cast above) less
    · have notFar : ((2 ^ 52 : ℕ) : ℚ) - 1 / 2 ≤ value / 2 ^ place := by linarith
      exact canonical.isRounded_of_near
        (isNearest_of_bounds notFar below (.inl (by norm_num)))
        (.inr notLess)
  · have half : ((2 : ℕ) / 4 : ℚ) = 1 / 2 := by norm_num
    rw [isTwo, half] at above ties
    apply canonical.isRounded_of_near (isNearest_of_bounds above below ties)
    rcases canonical.normal with least | normal
    · exact .inl least
    · rcases regular with other | low
      · right
        have more : (2 : ℚ) ^ 52 + 1 ≤ mantissa := by
          have strict : 2 ^ 52 + 1 ≤ mantissa := by omega
          exact_mod_cast strict
        push_cast
        linarith
      · exact .inl (le_antisymm low canonical.least)

/-! ## The range of decimals -/

theorem ten_zpow_le_half_least : (10 : ℚ) ^ (-330 : ℤ) ≤ 1 / 2 * 2 ^ (-1074 : ℤ) := by
  have inverse : (2 : ℚ) ^ (1075 : ℤ) ≤ 10 ^ (330 : ℤ) :=
    two_zpow_le_ten_zpow (by norm_num) (by norm_num)
  have halved : (1 / 2 : ℚ) * 2 ^ (-1074 : ℤ) = 2 ^ (-1075 : ℤ) := by
    have step : (2 : ℚ) ^ (-1074 : ℤ) = 2 ^ (-1075 : ℤ) * 2 :=
        zpow_add_one₀ (by norm_num) (-1075)
    rw [step]
    ring
  rw [halved, zpow_neg, zpow_neg]
  exact inv_anti₀ (two_zpow_pos 1075) inverse

theorem greatest_lt_ten_zpow : (2 : ℚ) ^ (1024 : ℤ) < 10 ^ (310 : ℤ) := by
  have bits : (2 : ℚ) ^ (1025 : ℤ) ≤ 10 ^ (310 : ℤ) :=
    two_zpow_le_ten_zpow (by norm_num) (by norm_num)
  exact (two_zpow_lt.mpr (by norm_num)).trans_le bits

/-- The interval lies far inside of the range of decimals that are read. -/
theorem holds_inRange (negative : Bool) {mantissa : ℕ} {place : ℤ}
    (canonical : IsCanonical mantissa place) (inRange : place ≤ 971) {value : ℚ}
    (holds : (Shortest.Target.ofBinary ⟨negative, mantissa, place⟩).Holds value) :
    (10 : ℚ) ^ (-330 : ℤ) ≤ value ∧ value < 10 ^ (310 : ℤ) := by
  have positive := two_zpow_pos place
  have most : (Shortest.Target.quartersBelow ⟨negative, mantissa, place⟩ : ℚ) ≤ 2 := by
    exact_mod_cast Shortest.Target.quartersBelow_le _
  have least : (1 : ℚ) ≤ mantissa := by exact_mod_cast canonical.positive
  have small : (mantissa + 1 : ℚ) ≤ 2 ^ 53 := by exact_mod_cast canonical.small
  rcases bounds_of_holds canonical.positive holds with ⟨above, below, -⟩
  simp only at above below
  constructor
  · calc (10 : ℚ) ^ (-330 : ℤ) ≤ 1 / 2 * 2 ^ (-1074 : ℤ) := ten_zpow_le_half_least
      _ ≤ 1 / 2 * 2 ^ place :=
          mul_le_mul_of_nonneg_left (two_zpow_le.mpr canonical.least) (by norm_num)
      _ ≤ value := by
          rw [← le_div_iff₀ positive]
          linarith
  · calc value ≤ 2 ^ 53 * 2 ^ place := by
          rw [← div_le_iff₀ positive]
          linarith
      _ ≤ 2 ^ (53 : ℤ) * 2 ^ (971 : ℤ) :=
          mul_le_mul_of_nonneg_left (two_zpow_le.mpr inRange) (by norm_num)
      _ < 10 ^ (310 : ℤ) := by
          rw [← two_zpow_add]
          exact greatest_lt_ten_zpow

/-! ## Reading what was written -/

theorem eq_of_unpack_eq {x y : Float} (same : x.toModel.unpack = y.toModel.unpack) :
    x = y :=
  congrArg Float.ofModel (unpack_injective same)

theorem ofDecimal_eq (negative : Bool) (digits : ℕ) (exponent : ℤ) :
    ofDecimal negative digits exponent =
      if negative then -ofDecimal false digits exponent
      else ofDecimal false digits exponent := by
  have signed : ∀ magnitude : Float, (if negative then -magnitude else magnitude) =
      if negative then -(if false then -magnitude else magnitude)
      else if false then -magnitude else magnitude := fun _ => rfl
  exact signed _

/-- Digits in the interval of a float are read as that float. -/
theorem unpack_ofDecimal (sign : Sign) {mantissa : ℕ} {place : ℤ}
    (canonical : IsCanonical mantissa place) (inRange : place ≤ 971)
    {digits : ℕ} {exponent : ℤ}
    (holds : (Shortest.Target.ofBinary ⟨sign == .negative, mantissa, place⟩).Holds
      (digits * 10 ^ exponent)) :
    (ofDecimal (sign == .negative) digits exponent).toModel.unpack =
      .finite sign mantissa place canonical.positive := by
  have some : digits ≠ 0 := by
    intro none
    have positive := Shortest.Target.Holds.pos canonical.positive holds
    rw [none, Nat.cast_zero, zero_mul] at positive
    exact lt_irrefl 0 positive
  rcases holds_inRange _ canonical inRange holds with ⟨above, below⟩
  rcases isFloatOf_ofDecimal some above below with ⟨rounded, isRounded, unpacked⟩
  rw [isRounded.unique (isRounded_of_holds _ canonical holds), limit,
    if_neg (not_lt.mpr inRange)] at unpacked
  rw [ofDecimal_eq]
  cases sign with
  | positive => rwa [if_neg (by decide)]
  | negative =>
      rw [if_pos (by decide), unpack_neg, unpacked]
      exact unpack_pack_finite .negative canonical inRange

theorem read_plain_finite {x : Float} {sign : Sign} {mantissa : ℕ} {place : ℤ}
    {positive : 0 < mantissa}
    (unpacked : x.toModel.unpack = .finite sign mantissa place positive) :
    Scalar.read? (Layout.plain x) = some x := by
  rcases canonical_of_unpack unpacked with ⟨canonical, inRange⟩
  have exact : Binary.ofFloat? x = some ⟨sign == .negative, mantissa, place⟩ := by
    rw [ofFloat_eq, unpacked]
    rfl
  have holds := @Shortest.holds_digits ⟨sign == .negative, mantissa, place⟩ positive
    canonical.small inRange .up
  generalize isDigits : Shortest.digits .up ⟨sign == .negative, mantissa, place⟩ = digits
    at holds
  rcases Decimal.exists_numeral_ofPositional (sign == .negative) (Digits.ofNat digits.1)
    (Digits.isRun_ofNat _) digits.2 with ⟨number, exponent, isNumeral, value⟩
  have written : Layout.plain x =
      (Decimal.ofPositional (sign == .negative) (Digits.ofNat digits.1)
      (Digits.isRun_ofNat _) digits.2).text := by
    rw [Decimal.text_ofPositional, Layout.plain, exact]
    simp only [if_neg positive.ne', isDigits]
  rw [Digits.value_ofNat] at value
  rw [← value] at holds
  rw [written, Scalar.read?, Decimal.read_text, isNumeral]
  refine congrArg Option.some (eq_of_unpack_eq ?_)
  rw [unpacked]
  exact unpack_ofDecimal sign canonical inRange holds

/-- The text of a value that is a number is read as that value. -/
theorem read_plain {x : Float} (comparable : x ≤ x) :
    Scalar.read? (Layout.plain x) = some x := by
  rw [le_self_iff] at comparable
  have special : ∀ y : Float, x.toModel.unpack = y.toModel.unpack →
      Scalar.read? (Layout.plain y) = some y →
      Scalar.read? (Layout.plain x) = some x := by
    intro y same read
    rwa [eq_of_unpack_eq same]
  match unpacked : x.toModel.unpack with
  | .notANumber => exact absurd unpacked comparable
  | .infinity .positive => exact special infinity (unpacked.trans rfl) (by decide)
  | .infinity .negative => exact special (-infinity) (unpacked.trans rfl) (by decide)
  | .zero .positive => exact special 0.0 (unpacked.trans rfl) (by decide)
  | .zero .negative => exact special (-0.0) (unpacked.trans rfl) (by decide)
  | .finite sign mantissa place positive => exact read_plain_finite unpacked

/-! ## Coordinates that are numbers -/

theorem comparable_of_isFinite {x : Float} (finite : x.isFinite = true) : x ≤ x := by
  rw [le_self_iff]
  intro undefined
  change x.toModel.unpack.isFinite = true at finite
  rw [undefined] at finite
  exact Bool.false_ne_true finite

theorem comparable_add {x y : Float} (finite : x.isFinite = true) (comparable : y ≤ y) :
    x + y ≤ x + y := by
  have number := comparable_of_isFinite finite
  rw [le_self_iff] at number comparable ⊢
  exact unpack_pack_ne_notANumber (add_ne_notANumber number comparable (.inl finite))

theorem comparable_add_of_right {x y : Float} (comparable : x ≤ x)
    (finite : y.isFinite = true) :
    x + y ≤ x + y := by
  have number := comparable_of_isFinite finite
  rw [le_self_iff] at number comparable ⊢
  exact unpack_pack_ne_notANumber (add_ne_notANumber comparable number (.inr finite))

theorem comparable_sub {x y : Float} (finite : x.isFinite = true) (comparable : y ≤ y) :
    x - y ≤ x - y := by
  have number := comparable_of_isFinite finite
  rw [le_self_iff] at number comparable ⊢
  rw [unpack_sub, sub_eq_add_neg]
  exact unpack_pack_ne_notANumber
    (add_ne_notANumber number (neg_ne_notANumber comparable) (.inl finite))

theorem comparable_neg {x : Float} (comparable : x ≤ x) : -x ≤ -x := by
  rw [le_self_iff, unpack_neg]
  exact unpack_pack_ne_notANumber (neg_ne_notANumber (le_self_iff.mp comparable))

section

variable {x y : Float} {sign : Sign} {mantissa : ℕ} {place : ℤ} {positive : 0 < mantissa}
  (comparable : x ≤ x)
  (isFinite : y.toModel.unpack = .finite sign mantissa place positive)

include comparable isFinite

theorem comparable_mul : x * y ≤ x * y := by
  rw [le_self_iff, unpack_mul, isFinite]
  exact unpack_pack_ne_notANumber (mul_ne_notANumber (le_self_iff.mp comparable))

theorem comparable_div : x / y ≤ x / y := by
  rw [le_self_iff, unpack_div, isFinite]
  exact unpack_pack_ne_notANumber (div_ne_notANumber (le_self_iff.mp comparable))

end

theorem IsFloatOf.comparable {value : ℚ} {x : Float}
    (isFloatOf : IsFloatOf value x) : x ≤ x := by
  rcases isFloatOf with ⟨rounded, isRounded, unpacked⟩
  rw [le_self_iff, unpacked, ← isRounded.unpack_pack]
  exact unpack_pack_ne_notANumber isRounded.ne_notANumber

theorem comparable_ofNat (number : ℕ) : Float.ofNat number ≤ Float.ofNat number :=
  (isFloatOf_ofNat number).comparable

theorem comparable_round {x : Float} (comparable : x ≤ x) : round x ≤ round x := by
  unfold round
  split
  · exact comparable
  · split
    · exact comparable
    · simp only
      split
      · exact comparable_neg (comparable_ofNat _)
      · exact comparable_ofNat _

/-- The factor of six places is a float. -/
theorem isPower_factor : IsPower 6 (Scalar.power (10.0 : Float) 6).toModel.unpack := by
  decide +kernel

theorem comparable_roundPlaces {x : Float} (comparable : x ≤ x) :
    Scalar.roundPlaces 6 x ≤ Scalar.roundPlaces 6 x := by
  rcases isPower_factor.exists_finite with ⟨mantissa, place, positive, isFactor, -⟩
  unfold Scalar.roundPlaces
  simp only
  split
  · decide
  · exact comparable_div (comparable_round (comparable_mul comparable isFactor)) isFactor

end Photoplot.Binary64
