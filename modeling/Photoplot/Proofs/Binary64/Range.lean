import Photoplot.Proofs.Binary64.RoundTrip
import Photoplot.Proofs.Scalar.Finite

/-! # The range of floats

A value is rounded to a finite float exactly if it lies below a threshold, half a step
above the greatest one. The threshold itself is a tie that goes up, to infinity. -/

namespace Photoplot.Binary64

open Float.Model Float.Model.UnpackedFloat

def overflowThreshold : ℚ := 2 ^ (1024 : ℤ) - 2 ^ (970 : ℤ)

/-! ## The greatest floats -/

theorem overflowThreshold_eq :
    overflowThreshold = ((2 ^ 53 : ℕ) - 1 / 2) * 2 ^ (971 : ℤ) := by
  have full : (2 : ℚ) ^ (1024 : ℤ) = 2 ^ (53 : ℤ) * 2 ^ (971 : ℤ) := two_zpow_add 53 971
  have half : (2 : ℚ) ^ (970 : ℤ) = 1 / 2 * 2 ^ (971 : ℤ) := by
    have step : (2 : ℚ) ^ (971 : ℤ) = 2 ^ (970 : ℤ) * 2 := zpow_add_one₀ (by norm_num) 970
    rw [step]
    ring
  have whole : ((2 ^ 53 : ℕ) : ℚ) = 2 ^ (53 : ℤ) := by norm_num
  rw [overflowThreshold, full, half, whole, sub_mul]

theorem two_zpow_le_overflowThreshold : (2 : ℚ) ^ (1023 : ℤ) ≤ overflowThreshold := by
  have twice : (2 : ℚ) ^ (1024 : ℤ) = 2 ^ (1023 : ℤ) * 2 :=
      zpow_add_one₀ (by norm_num) 1023
  have least : (2 : ℚ) ^ (970 : ℤ) ≤ 2 ^ (1023 : ℤ) := two_zpow_le.mpr (by norm_num)
  rw [overflowThreshold, twice, mul_two]
  exact le_sub_iff_add_le.mpr (add_le_add_right least _)

theorem overflowThreshold_pos : 0 < overflowThreshold :=
  (two_zpow_pos 1023).trans_le two_zpow_le_overflowThreshold

theorem overflowThreshold_lt : overflowThreshold < 2 ^ (1024 : ℤ) :=
  sub_lt_self _ (two_zpow_pos 970)

/-- Half way below an even number it is that number that is nearest. -/
theorem IsNearest.lt_even_iff {value : ℚ} {number even : ℕ}
    (nearest : IsNearest value number)
    (isEven : even % 2 = 0) (bounded : number ≤ even) :
    number < even ↔ value < even - 1 / 2 := by
  obtain ⟨low, high⟩ := abs_le.mp nearest.near
  constructor
  · intro less
    have step : (number : ℚ) + 1 ≤ even := by exact_mod_cast less
    rcases (show value ≤ even - 1 / 2 by linarith).lt_or_eq with strict | tie
    · exact strict
    · have next : (number : ℚ) + 1 = even := by linarith
      have half : |value - number| = 1 / 2 := by
        rw [tie, ← next, abs_eq (by norm_num)]
        exact .inl (by ring)
      have isNext : number + 1 = even := by exact_mod_cast next
      have isEven' := nearest.even half
      omega
  · intro less
    rcases bounded.lt_or_eq with strict | same
    · exact strict
    · rw [same] at low
      linarith

theorem isFinite_limit_iff {sign : Sign} {mantissa : ℕ} {place : ℤ}
    {positive : 0 < mantissa} :
    (limit (.finite sign mantissa place positive)).isFinite = true ↔ place ≤ 971 := by
  rw [limit]
  split
  · rename_i beyond
    exact ⟨fun finite => absurd finite Bool.false_ne_true, fun inside => by omega⟩
  · rename_i inside
    exact ⟨fun _ => not_lt.mp inside, fun _ => rfl⟩

theorem limit_of_le {sign : Sign} {mantissa : ℕ} {place : ℤ} {positive : 0 < mantissa}
    (inRange : place ≤ 971) :
    limit (.finite sign mantissa place positive) = .finite sign mantissa place positive :=
  if_neg (not_lt.mpr inRange)

/-- Rounding leaves the range exactly from the threshold on. -/
theorem IsRounded.isFinite_iff {sign : Sign} {value : ℚ} {float : UnpackedFloat}
    (rounded : IsRounded sign value float) :
    (limit float).isFinite = true ↔ value < overflowThreshold := by
  obtain ⟨place, mantissa, grid, nearest, rfl⟩ := rounded
  have small := grid.mantissa_le nearest
  have finite : (limit (assemble sign mantissa place)).isFinite = true ↔
      mantissa = 0 ∨ (mantissa < 2 ^ 53 ∧ place ≤ 971) ∨ place ≤ 970 := by
    unfold assemble
    split
    · rename_i some
      split
      · rename_i less
        rw [isFinite_limit_iff]
        omega
      · rename_i full
        rw [isFinite_limit_iff]
        omega
    · rename_i none
      exact ⟨fun _ => .inl (by omega), fun _ => rfl⟩
  rw [finite]
  rcases lt_trichotomy place 971 with below | same | above
  · have less : value < overflowThreshold :=
      (grid.below.trans_le (two_zpow_le.mpr (by omega))).trans_le
        two_zpow_le_overflowThreshold
    exact ⟨fun _ => less, fun _ => .inr (.inr (by omega))⟩
  · rw [overflowThreshold_eq, ← div_lt_iff₀ (two_zpow_pos 971), ← same,
      ← nearest.lt_even_iff rfl small]
    omega
  · have normal : 2 ^ 52 ≤ mantissa := (grid.normal nearest).resolve_left (by omega)
    have large : (2 : ℚ) ^ (1024 : ℤ) ≤ value :=
      (two_zpow_le.mpr (by omega)).trans (grid.above.resolve_left (by omega))
    have beyond : ¬value < overflowThreshold :=
      not_lt.mpr (overflowThreshold_lt.le.trans large)
    simp only [beyond, iff_false]
    omega

/-- A finite float lies below the threshold itself. -/
theorem IsCanonical.lt_overflowThreshold {mantissa : ℕ} {place : ℤ}
    (canonical : IsCanonical mantissa place) (inRange : place ≤ 971) :
    (mantissa * 2 ^ place : ℚ) < overflowThreshold := by
  rw [← (canonical.isRounded .positive).isFinite_iff, isFinite_limit_iff]
  exact inRange

/-! ## Sizes -/

def size? : UnpackedFloat → Option ℚ
  | .zero _ => some 0
  | .finite _ mantissa place _ => some (mantissa * 2 ^ place)
  | _ => none

theorem size_assemble (sign : Sign) {mantissa : ℕ} {place : ℤ}
    (bounded : mantissa ≤ 2 ^ 53) :
    size? (assemble sign mantissa place) = some (mantissa * 2 ^ place : ℚ) := by
  unfold assemble
  split
  · split
    · rfl
    · rename_i full
      have isFull : mantissa = 2 ^ 53 := by omega
      rw [isFull, size?, zpow_add_one₀ (by norm_num)]
      norm_num
      ring
  · rename_i none
    have isZero : mantissa = 0 := by omega
    rw [isZero, size?, Nat.cast_zero, zero_mul]

/-- Rounding does not make more than twice as much of a value. -/
theorem IsRounded.le_two_mul {sign other : Sign} {value : ℚ} {mantissa : ℕ} {place : ℤ}
    {positive : 0 < mantissa}
    (rounded : IsRounded sign value (.finite other mantissa place positive)) :
    (mantissa * 2 ^ place : ℚ) ≤ 2 * value := by
  obtain ⟨unit, number, grid, nearest, same⟩ := rounded
  have sizes := @size_assemble sign number unit (grid.mantissa_le nearest)
  rw [← same] at sizes
  have size : (mantissa * 2 ^ place : ℚ) = number * 2 ^ unit := Option.some.inj sizes
  have least : (1 : ℚ) ≤ number := by
    have some : number ≠ 0 := by
      rintro rfl
      have isPositive : (0 : ℚ) < mantissa * 2 ^ place :=
        mul_pos (by exact_mod_cast positive) (two_zpow_pos place)
      rw [size, Nat.cast_zero, zero_mul] at isPositive
      exact lt_irrefl 0 isPositive
    exact_mod_cast Nat.one_le_iff_ne_zero.mpr some
  obtain ⟨low, high⟩ := abs_le.mp nearest.near
  rw [size, ← le_div_iff₀ (two_zpow_pos unit), mul_div_assoc]
  linarith

/-! ## Decimals -/

theorem isFinite_neg (x : Float) : (-x).isFinite = x.isFinite :=
  isFinite_unpack_neg x.toModel

theorem IsFloatOf.isFinite_iff {value : ℚ} {x : Float} (isFloatOf : IsFloatOf value x) :
    x.isFinite = true ↔ value < overflowThreshold := by
  obtain ⟨rounded, isRounded, unpacked⟩ := isFloatOf
  rw [← isRounded.isFinite_iff, ← unpacked]
  rfl

/-- Magnitudes that are settled by their logarithm are on the right side of the
threshold. -/
theorem ofDecimal_cases (digits : ℕ) (exponent : ℤ) :
    (ofDecimal false digits exponent = infinity ∧
        overflowThreshold ≤ (digits * 10 ^ exponent : ℚ)) ∨
      (ofDecimal false digits exponent = 0.0 ∧
        (digits * 10 ^ exponent : ℚ) < overflowThreshold) ∨
      IsFloatOf (digits * 10 ^ exponent) (ofDecimal false digits exponent) := by
  unfold ofDecimal
  simp only [Bool.false_eq_true, if_false]
  split
  · rename_i none
    refine .inr (.inl ⟨rfl, ?_⟩)
    rw [none, Nat.cast_zero, zero_mul]
    exact overflowThreshold_pos
  rename_i some
  split
  · rename_i large
    exact .inl ⟨rfl, (overflowThreshold_lt.trans greatest_lt_ten_zpow).le.trans
      (ten_zpow_le_of_estimate some large)⟩
  split
  · rename_i small
    exact .inr (.inl ⟨rfl, (lt_ten_zpow_of_estimate small).trans_le
      ((zpow_le_one_of_nonpos₀ (by norm_num) (by norm_num)).trans
        ((one_le_zpow₀ (by norm_num) (by norm_num)).trans
          two_zpow_le_overflowThreshold))⟩)
  · exact .inr (.inr (isFloatOf_ofScientific some (by omega) (by omega)))

/-- A decimal is read as a finite float exactly if it lies below the threshold. -/
theorem isFinite_ofDecimal_iff (negative : Bool) (digits : ℕ) (exponent : ℤ) :
    (ofDecimal negative digits exponent).isFinite = true ↔
      (digits * 10 ^ exponent : ℚ) < overflowThreshold := by
  have unsigned : (ofDecimal negative digits exponent).isFinite =
      (ofDecimal false digits exponent).isFinite := by
    rw [ofDecimal_eq]
    split
    · exact isFinite_neg _
    · rfl
  rw [unsigned]
  rcases ofDecimal_cases digits exponent with
      ⟨isInfinity, beyond⟩ | ⟨isZero, inside⟩ | isFloatOf
  · have infinite : ¬infinity.isFinite = true := by decide
    rw [isInfinity]
    exact iff_of_false infinite (not_lt.mpr beyond)
  · rw [isZero]
    exact iff_of_true (by decide) inside
  · exact isFloatOf.isFinite_iff

theorem comparable_ofDecimal (negative : Bool) (digits : ℕ) (exponent : ℤ) :
    ofDecimal negative digits exponent ≤ ofDecimal negative digits exponent := by
  have unsigned : ofDecimal false digits exponent ≤ ofDecimal false digits exponent := by
    rcases ofDecimal_cases digits exponent with ⟨isInfinity, -⟩ | ⟨isZero, -⟩ | isFloatOf
    · rw [isInfinity]
      decide
    · rw [isZero]
      decide
    · exact isFloatOf.comparable
  rw [ofDecimal_eq]
  split
  · exact comparable_neg unsigned
  · exact unsigned

/-! ## Arithmetic within the range -/

theorem isFinite_iff_size {x : Float} :
    x.isFinite = true ↔ (size? x.toModel.unpack).isSome := by
  change x.toModel.unpack.isFinite = true ↔ _
  cases x.toModel.unpack <;> simp [size?, UnpackedFloat.isFinite]

theorem size_lt_overflowThreshold {x : Float} {size : ℚ}
    (isSize : size ∈ size? x.toModel.unpack) : size < overflowThreshold := by
  cases unpacked : x.toModel.unpack with
  | zero sign =>
      rw [unpacked] at isSize
      rcases Option.some.inj isSize with rfl
      exact overflowThreshold_pos
  | finite sign mantissa place positive =>
      obtain ⟨canonical, inRange⟩ := canonical_of_unpack unpacked
      rw [unpacked] at isSize
      rcases Option.some.inj isSize with rfl
      exact canonical.lt_overflowThreshold inRange
  | notANumber =>
      rw [unpacked] at isSize
      cases isSize
  | infinity sign =>
      rw [unpacked] at isSize
      cases isSize

theorem natCast_lt_overflowThreshold {number : ℕ} (small : number < 2 ^ 64) :
    (number : ℚ) < overflowThreshold := by
  have few : (number : ℚ) < 2 ^ (64 : ℤ) := by exact_mod_cast small
  exact (few.trans_le (two_zpow_le.mpr (by norm_num))).trans_le
    two_zpow_le_overflowThreshold

/-- The rounding of a natural number measures at most twice as much. -/
theorem exists_size_ofNat {number : ℕ} (below : (number : ℚ) < overflowThreshold) :
    ∃ size ∈ size? (Float.ofNat number).toModel.unpack, size ≤ 2 * number := by
  obtain ⟨rounded, isRounded, unpacked⟩ := isFloatOf_ofNat number
  have finite := isRounded.isFinite_iff.mpr below
  rw [unpacked]
  cases rounded with
  | zero sign => exact ⟨0, rfl, by positivity⟩
  | finite sign mantissa place positive =>
      rw [limit_of_le (isFinite_limit_iff.mp finite)]
      exact ⟨_, rfl, isRounded.le_two_mul⟩
  | notANumber => cases finite
  | infinity sign => cases finite

theorem size_neg (x : Float) : size? (-x).toModel.unpack = size? x.toModel.unpack := by
  rw [unpack_neg]
  cases unpacked : x.toModel.unpack with
  | zero sign =>
      rw [UnpackedFloat.neg, unpack_pack_zero]
      rfl
  | finite sign mantissa place positive =>
      obtain ⟨canonical, inRange⟩ := canonical_of_unpack unpacked
      rw [UnpackedFloat.neg, unpack_pack_finite _ canonical inRange]
      rfl
  | notANumber => rfl
  | infinity sign =>
      rw [UnpackedFloat.neg, unpack_pack_infinity]
      rfl

theorem exists_size_ofInt {number : ℤ} (small : number.natAbs < 2 ^ 64) :
    ∃ size ∈ size? (Float.ofInt number).toModel.unpack, size ≤ 2 * number.natAbs := by
  cases number with
  | ofNat number => exact exists_size_ofNat (natCast_lt_overflowThreshold small)
  | negSucc number =>
      have negative : Float.ofInt (.negSucc number) = -Float.ofNat (number + 1) := rfl
      rw [negative, size_neg]
      exact exists_size_ofNat (natCast_lt_overflowThreshold small)

theorem isFinite_unpack_pack_notANumber :
    (Float.Model.pack .notANumber).unpack.isFinite = false := rfl

theorem isFinite_unpack_pack_infinity (sign : Sign) :
    (Float.Model.pack (.infinity sign)).unpack.isFinite = false := by
  rw [unpack_pack_infinity]
  rfl

theorem isFinite_unpack_pack_zero (sign : Sign) :
    (Float.Model.pack (.zero sign)).unpack.isFinite = true := by
  rw [unpack_pack_zero]
  rfl

section

variable {x y : Float} {exponent : ℕ} (power : IsPower exponent y.toModel.unpack)

include power

/-- A product with a power of ten is finite exactly if the exact product is in the
range. -/
theorem isFinite_mul_power_iff :
    (x * y).isFinite = true ↔
      ∃ size ∈ size? x.toModel.unpack, size * 10 ^ exponent < overflowThreshold := by
  obtain ⟨mantissa', place', positive', unpacked', full, value⟩ := power.exists_finite
  change (x * y).toModel.unpack.isFinite = true ↔ _
  rw [unpack_mul, unpacked']
  cases unpacked : x.toModel.unpack with
  | notANumber =>
      rw [UnpackedFloat.mul, isFinite_unpack_pack_notANumber]
      simp [size?]
  | infinity sign =>
      rw [UnpackedFloat.mul, isFinite_unpack_pack_infinity]
      simp [size?]
  | zero sign =>
      rw [UnpackedFloat.mul, isFinite_unpack_pack_zero]
      simp [size?, overflowThreshold_pos]
  | finite sign mantissa place positive =>
      have rounded := isRounded_mul sign .positive place place' positive positive'
        (.inl (full.trans (Nat.le_mul_of_pos_left _ positive)))
      have product : ((mantissa * mantissa' : ℕ) * 2 ^ (place + place') : ℚ) =
          mantissa * 2 ^ place * 10 ^ exponent := by
        rw [← value, two_zpow_add]
        push_cast
        ring
      rw [rounded.unpack_pack, rounded.isFinite_iff, product]
      simp [size?]

/-- A quotient by a power of ten is as finite as the dividend. -/
theorem isFinite_div_power_iff : (x / y).isFinite = true ↔ x.isFinite = true := by
  obtain ⟨mantissa', place', positive', unpacked', full, value⟩ := power.exists_finite
  change (x / y).toModel.unpack.isFinite = true ↔ x.toModel.unpack.isFinite = true
  rw [unpack_div, unpacked']
  cases unpacked : x.toModel.unpack with
  | notANumber =>
      rw [UnpackedFloat.div, isFinite_unpack_pack_notANumber]
      rfl
  | infinity sign =>
      rw [UnpackedFloat.div, isFinite_unpack_pack_infinity]
      rfl
  | zero sign =>
      rw [UnpackedFloat.div, isFinite_unpack_pack_zero]
      rfl
  | finite sign mantissa place positive =>
      have rounded := isRounded_div sign .positive place place' positive positive'
      have below :=
          @size_lt_overflowThreshold x (mantissa * 2 ^ place) (by rw [unpacked]; rfl)
      have atLeastOne : (1 : ℚ) ≤ 10 ^ exponent := one_le_pow₀ (by norm_num)
      rw [rounded.unpack_pack, rounded.isFinite_iff, value]
      exact iff_of_true ((div_le_self (by positivity) atLeastOne).trans_lt below) rfl

end

/-- Scaling by one keeps a value in the range, or out of it. -/
theorem isFinite_mul_one (x : Float) : (x * 1.0).isFinite = x.isFinite := by
  have power : IsPower 0 (1.0 : Float).toModel.unpack := by decide
  rw [Bool.eq_iff_iff, isFinite_mul_power_iff power, isFinite_iff_size,
    Option.isSome_iff_exists]
  simp only [pow_zero, mul_one]
  exact exists_congr fun size => and_iff_left_of_imp size_lt_overflowThreshold

/-! ## Six places -/

/-- The number leaves room for six decimal places. -/
def HasRoom (x : Float) : Prop :=
  ∃ size ∈ size? x.toModel.unpack, size * 10 ^ 6 < overflowThreshold

theorem isFinite_iff_binary {x : Float} :
    x.isFinite = true ↔ (Binary.ofFloat? x).isSome := by
  rw [ofFloat_eq]
  change x.toModel.unpack.isFinite = true ↔ _
  cases x.toModel.unpack <;> simp [binary?, UnpackedFloat.isFinite]

theorem nearest_le (negative : Bool) {mantissa : ℕ} (power : ℕ)
    (short : mantissa < 2 ^ 53) :
    Binary.nearest ⟨negative, mantissa, .negSucc power⟩ ≤ 2 ^ 53 := by
  have some : 1 ≤ 2 ^ power := Nat.one_le_two_pow
  simp only [Binary.nearest, Nat.shiftRight_eq_div_pow, Nat.shiftLeft_eq, one_mul]
  apply Nat.div_le_of_le_mul
  rw [pow_succ]
  omega

/-- A number with a fraction is small. -/
theorem nearest_lt {x : Float} {number : Binary}
    (isNumber : Binary.ofFloat? x = some number)
    (fraction : ¬0 ≤ number.exponent) : number.nearest < 2 ^ 64 := by
  have small : number.mantissa < 2 ^ 53 := by
    rw [ofFloat_eq] at isNumber
    cases unpacked : x.toModel.unpack with
    | zero sign =>
        rw [unpacked] at isNumber
        rcases Option.some.inj isNumber with rfl
        exact Nat.two_pow_pos 53
    | finite sign mantissa place positive =>
        rw [unpacked] at isNumber
        rcases Option.some.inj isNumber with rfl
        exact (canonical_of_unpack unpacked).1.small
    | notANumber =>
        rw [unpacked] at isNumber
        cases isNumber
    | infinity sign =>
        rw [unpacked] at isNumber
        cases isNumber
  obtain ⟨negative, mantissa, exponent⟩ := number
  cases exponent with
  | ofNat power => exact absurd (Int.natCast_nonneg power) fraction
  | negSucc power => exact (nearest_le negative power small).trans_lt (by norm_num)

section

variable {x : Float} {number : Binary} (isBinary : Binary.ofFloat? x = some number)

include isBinary

theorem round_of_whole (whole : 0 ≤ number.exponent) : round x = x := by
  rw [round, isBinary]
  exact if_pos whole

theorem round_of_fraction (fraction : number.exponent < 0) :
    round x = if number.negative then -Float.ofNat number.nearest
      else Float.ofNat number.nearest := by
  rw [round, isBinary]
  exact if_neg (not_le.mpr fraction)

end

theorem isFinite_round (x : Float) : (round x).isFinite = x.isFinite := by
  cases isNumber : Binary.ofFloat? x with
  | none => rw [round, isNumber]
  | some number =>
      rcases le_or_gt 0 number.exponent with whole | fraction
      · rw [round_of_whole isNumber whole]
      · have inRange :=
            natCast_lt_overflowThreshold (nearest_lt isNumber (not_le.mpr fraction))
        obtain ⟨size, isSize, -⟩ := exists_size_ofNat inRange
        have finite : x.isFinite = true := isFinite_iff_binary.mpr (by rw [isNumber]; rfl)
        have finite' : (Float.ofNat number.nearest).isFinite = true :=
          isFinite_iff_size.mpr (Option.isSome_of_mem isSize)
        rw [round_of_fraction isNumber fraction, finite]
        split
        · rw [isFinite_neg, finite']
        · exact finite'

theorem isFinite_or_special (x : Float) :
    x.isFinite = true ∨ x = infinity ∨ x = -infinity ∨ x = 0.0 / 0.0 := by
  change x.toModel.unpack.isFinite = true ∨ _
  match unpacked : x.toModel.unpack with
  | .zero sign => exact .inl rfl
  | .finite sign mantissa place positive => exact .inl rfl
  | .infinity .positive => exact .inr (.inl (eq_of_unpack_eq (unpacked.trans rfl)))
  | .infinity .negative => exact .inr (.inr (.inl (eq_of_unpack_eq (unpacked.trans rfl))))
  | .notANumber => exact .inr (.inr (.inr (eq_of_unpack_eq (unpacked.trans rfl))))

/-- What is the same as zero is finite. -/
theorem isFinite_of_same_zero {x : Float} (same : Scalar.Same x 0.0) :
    x.isFinite = true := by
  rcases isFinite_or_special x with finite | rfl | rfl | rfl
  · exact finite
  · exact absurd same (by decide)
  · exact absurd same (by decide)
  · exact absurd same (by decide)

/-- Rounding to six places stays in the range exactly if there is room for them. -/
theorem isFinite_roundPlaces_iff (x : Float) :
    (Scalar.roundPlaces 6 x).isFinite = true ↔ HasRoom x := by
  have quotient :
      (round (x * Scalar.power 10.0 6) / Scalar.power 10.0 6).isFinite = true ↔
      HasRoom x := by
    rw [isFinite_div_power_iff isPower_factor, isFinite_round,
      isFinite_mul_power_iff isPower_factor, HasRoom]
  unfold Scalar.roundPlaces
  simp only
  split
  · rename_i same
    exact iff_of_true (by decide) (quotient.mp (isFinite_of_same_zero same))
  · exact quotient

end Photoplot.Binary64
