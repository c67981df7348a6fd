import Photoplot.Proofs.Binary64.Interval

/-! # Lengths of vectors of floats

The length of a vector of numbers is a number: where its parts could leave the range, they
are scaled first, so no step of the computation takes infinities from each other or
divides by zero. -/

namespace Photoplot.Binary64

open Float.Model Float.Model.UnpackedFloat

/-! ## Roots -/

/-- The whole root and what the remainder says about the residual bits. Which value they
describe does not matter, as long as it is the root itself if that is whole. -/
theorem exists_describes_root (number : ℕ) :
    ∃ part : ℚ, 0 ≤ part ∧ part < 1 ∧ (number = number.sqrt * number.sqrt → part = 0) ∧
      Describes (.ofMantissaAndAccuracy number.sqrt
        (if number - number.sqrt * number.sqrt = 0 then .exact
          else .inexact (if number - number.sqrt * number.sqrt ≤
            number.sqrt then .lt else .gt)))
        (number.sqrt + part) := by
  have least := Nat.sqrt_le number
  split
  · refine ⟨0, le_rfl, one_pos, fun _ => rfl, ?_⟩
    rw [add_zero]
    exact describes_exact _
  · rename_i more
    have inexact : ∀ part : ℚ, 0 < part → part < 1 → _ := @describes_inexact number.sqrt
    split
    · have quarter : compare (1 / 4 : ℚ) (1 / 2) = .lt :=
          compare_lt_iff_lt.mpr (by norm_num)
      refine ⟨1 / 4, by norm_num, by norm_num, fun whole => absurd whole (by omega), ?_⟩
      rw [← quarter]
      exact inexact _ (by norm_num) (by norm_num)
    · have quarters : compare (3 / 4 : ℚ) (1 / 2) = .gt :=
          compare_gt_iff_gt.mpr (by norm_num)
      refine ⟨3 / 4, by norm_num, by norm_num, fun whole => absurd whole (by omega), ?_⟩
      rw [← quarters]
      exact inexact _ (by norm_num) (by norm_num)

/-- A root is computed in units of this power of two, of a number in units of its
square. -/
def rootPlace (mantissa : ℕ) (exponent : ℤ) : ℤ :=
  min (exponent.ediv 2)
    (Format.binary64.targetExponent ((totalExponent mantissa exponent + 1).ediv 2))

theorem rootPlace_le (mantissa : ℕ) (exponent : ℤ) :
    rootPlace mantissa exponent ≤ exponent / 2 :=
  min_le_left _ _

/-- The units of a root are fine enough for its 53 bits, if there are that many. -/
theorem rootPlace_fine (mantissa : ℕ) (exponent : ℤ) :
    rootPlace mantissa exponent ≤ -1074 ∨
      2 * rootPlace mantissa exponent + 104 ≤ mantissa.log2 + exponent := by
  have bits :
      Format.binary64.targetExponent ((totalExponent mantissa exponent + 1).ediv 2) =
      max ((mantissa.log2 + exponent + 2) / 2 - 53) (-1074) := by
    have half : (totalExponent mantissa exponent + 1).ediv 2 =
        (mantissa.log2 + exponent + 2) / 2 := by
      change (mantissa.log2 + 1 + exponent + 1) / 2 = _
      congr 1
      ring
    rw [half]
    rfl
  have least : rootPlace mantissa exponent ≤ _ := min_le_right _ _
  rw [bits] at least
  omega

/-- A number that has at least 104 bits has a root of 52 bits or more. -/
theorem two_zpow_le_sqrt {number : ℕ} {place total : ℤ} (long : 2 * place + 104 ≤ total)
    (least : 2 ^ total ≤ (number * (2 ^ place * 2 ^ place) : ℚ)) :
    (2 : ℚ) ^ (52 : ℤ) ≤ number.sqrt := by
  have bits : (2 : ℚ) ^ (104 : ℤ) * (2 ^ place * 2 ^ place) ≤
      number * (2 ^ place * 2 ^ place) := by
    calc (2 : ℚ) ^ (104 : ℤ) * (2 ^ place * 2 ^ place) = 2 ^ (104 + (place + place)) := by
          rw [two_zpow_add, two_zpow_add]
      _ ≤ 2 ^ total := two_zpow_le.mpr (by omega)
      _ ≤ number * (2 ^ place * 2 ^ place) := least
  have square : 2 ^ 52 * 2 ^ 52 ≤ number := by
    have powers :=
        le_of_mul_le_mul_right bits (mul_pos (two_zpow_pos place) (two_zpow_pos place))
    exact_mod_cast powers
  exact_mod_cast Nat.le_sqrt.mpr square

/-- The root is the one of a number of units, and what is left of it is less than a
unit. -/
theorem exists_isRounded_sqrt {mantissa : ℕ} {exponent : ℤ} (positive : 0 < mantissa)
    (inRange : exponent ≤ 971) :
    ∃ (unit : ℤ) (number : ℕ) (part : ℚ), unit ≤ 485 ∧ 0 < number ∧
      (number * (2 ^ unit * 2 ^ unit) : ℚ) = mantissa * 2 ^ exponent ∧
      0 ≤ part ∧ part < 1 ∧ (number = number.sqrt * number.sqrt → part = 0) ∧
      IsRounded .positive ((number.sqrt + part) * 2 ^ unit)
        (UnpackedFloat.sqrt .binary64
          (.finite .positive mantissa exponent positive)) := by
  have coarse := rootPlace_le mantissa exponent
  have fine := rootPlace_fine mantissa exponent
  generalize isUnit : rootPlace mantissa exponent = unit at coarse fine
  generalize isNumber : mantissa <<< (exponent - 2 * unit).toNat = number
  have value : (number * (2 ^ unit * 2 ^ unit) : ℚ) = mantissa * 2 ^ exponent := by
    have exponents : ((exponent - 2 * unit).toNat : ℤ) + (unit + unit) = exponent := by
      omega
    rw [← isNumber, Nat.shiftLeft_eq]
    push_cast
    rw [mul_assoc, ← zpow_natCast, ← two_zpow_add, ← two_zpow_add, exponents]
  have some : 0 < number := by
    rw [← isNumber, Nat.shiftLeft_eq]
    positivity
  obtain ⟨part, nonneg, less, whole, describes⟩ := exists_describes_root number
  refine ⟨unit, number, part, by omega, some, value, nonneg, less, whole, ?_⟩
  have isPositive : 0 < (number.sqrt + part) * (2 : ℚ) ^ unit := by
    have one : (1 : ℚ) ≤ number.sqrt := by exact_mod_cast Nat.le_sqrt.mpr some
    exact mul_pos (by linarith) (two_zpow_pos unit)
  rcases exists_isGrid isPositive with ⟨place, grid⟩
  rw [← mul_div_cancel_right₀ (number.sqrt + part : ℚ) (two_zpow_pos unit).ne']
    at describes
  have rounded : unit ≤ place := by
    rcases fine with least | long
    · exact least.trans grid.least
    · have least : (2 : ℚ) ^ (mantissa.log2 + exponent : ℤ) ≤
          number * (2 ^ unit * 2 ^ unit) := by
        rw [value, two_zpow_add]
        exact mul_le_mul_of_nonneg_right (two_zpow_log2_le positive.ne')
          (two_zpow_pos exponent).le
      have root := two_zpow_le_sqrt long least
      apply grid.le_place
      rw [two_zpow_add, mul_comm]
      exact mul_le_mul_of_nonneg_right (by linarith) (two_zpow_pos unit).le
  rw [rootPlace] at isUnit
  simp only [UnpackedFloat.sqrt, sqrtCore, isUnit, isNumber]
  exact isRounded_roundWithAccuracy .positive describes grid rounded

/-- A number that has at most the root of a square, and less if it is not whole. -/
theorem sqrt_add_le {number root : ℕ} {part : ℚ} (most : number ≤ root * root)
    (less : part < 1) (whole : number = number.sqrt * number.sqrt → part = 0) :
    number.sqrt + part ≤ root := by
  rcases (Nat.sqrt_le number).lt_or_eq with inexact | exact
  · have fewer : number.sqrt < root := lt_of_mul_self_lt_mul_self₀ root.zero_le (by omega)
    have next : (number.sqrt : ℚ) + 1 ≤ root := by exact_mod_cast fewer
    linarith
  · rw [whole exact.symm, add_zero]
    exact_mod_cast Nat.mul_self_le_mul_self_iff.mp (exact.trans_le most)

theorem exists_two_zpow_eq {low high : ℤ} (ordered : low ≤ high) :
    ∃ count : ℕ, (2 : ℚ) ^ high = count * 2 ^ low := by
  refine ⟨2 ^ (high - low).toNat, ?_⟩
  have exponents : ((high - low).toNat : ℤ) + low = high := by omega
  push_cast
  rw [← zpow_natCast, ← two_zpow_add, exponents]

/-- The root of a value between two squares is between their roots. -/
theorem within_sqrt {x : Float} {value : ℚ} (stands : HasValue x value)
    {least : ℤ} {count : ℕ}
    {place : ℤ} (coarse : 485 ≤ place) (isLow : IsBound (2 ^ least))
    (isHigh : IsBound (count * 2 ^ place)) (above : 2 ^ least * 2 ^ least ≤ value)
    (below : value ≤ count * 2 ^ place * (count * 2 ^ place)) :
    Within (2 ^ least) (count * 2 ^ place) x.sqrt := by
  have isPositive : 0 < value :=
      (mul_pos (two_zpow_pos least) (two_zpow_pos least)).trans_le above
  rcases stands.cases with ⟨sign, -, rfl⟩ |
    ⟨sign, mantissa, exponent, canonical, inRange, unpacked, rfl⟩
  · exact absurd isPositive (lt_irrefl 0)
  cases sign with
  | negative =>
      have size : (0 : ℚ) ≤ mantissa * 2 ^ exponent :=
        mul_nonneg (Nat.cast_nonneg _) (two_zpow_pos exponent).le
      exact absurd isPositive (not_lt.mpr (neg_nonpos.mpr size))
  | positive =>
      obtain ⟨unit, number, part, small, some, same, nonneg, less, whole, rounded⟩ :=
        exists_isRounded_sqrt canonical.positive inRange
      rw [← unpacked] at rounded
      change _ ≤ (mantissa * 2 ^ exponent : ℚ) at above
      change (mantissa * 2 ^ exponent : ℚ) ≤ _ at below
      rw [← same] at above below
      have unitPositive := two_zpow_pos unit
      refine Rounds.within ⟨.positive, _, ?_, rfl, rounded⟩ rfl isLow isHigh ?_ ?_
      · exact mul_nonneg (add_nonneg (Nat.cast_nonneg _) nonneg) unitPositive.le
      · rcases le_total unit least with coarser | finer
        · obtain ⟨count, isCount⟩ := exists_two_zpow_eq coarser
          have squares : count * count ≤ number := by
            rw [isCount, mul_mul_mul_comm] at above
            have counts :=
                le_of_mul_le_mul_right above (mul_pos unitPositive unitPositive)
            exact_mod_cast counts
          have counts : (count : ℚ) ≤ number.sqrt := by
            exact_mod_cast Nat.le_sqrt.mpr squares
          rw [isCount]
          exact mul_le_mul_of_nonneg_right (by linarith) unitPositive.le
        · have root : (1 : ℚ) ≤ number.sqrt := by exact_mod_cast Nat.le_sqrt.mpr some
          calc (2 : ℚ) ^ least ≤ 2 ^ unit := two_zpow_le.mpr finer
            _ ≤ (number.sqrt + part) * 2 ^ unit :=
                le_mul_of_one_le_left unitPositive.le (by linarith)
      · obtain ⟨steps, isSteps⟩ := exists_two_zpow_eq (small.trans coarse)
        have isMost : (count * 2 ^ place : ℚ) = (count * steps : ℕ) * 2 ^ unit := by
          rw [isSteps]
          push_cast
          ring
        have squares : number ≤ count * steps * (count * steps) := by
          rw [isMost, mul_mul_mul_comm] at below
          have counts := le_of_mul_le_mul_right below (mul_pos unitPositive unitPositive)
          exact_mod_cast counts
        rw [isMost]
        exact mul_le_mul_of_nonneg_right (sqrt_add_le squares less whole) unitPositive.le

/-! ## Bounds of lengths -/

/-- The sides of a vector that needs no scaling are twice this at most. -/
def reach : ℚ := 2 ^ (510 : ℤ)

theorem reach_pos : 0 < reach := two_zpow_pos 510

theorem isBound_zero : IsBound 0 := by
  rw [IsBound, abs_zero]
  exact isSize_zero

theorem isBound_multiple (number : ℤ) {place : ℤ} (few : |number| ≤ 12)
    (least : -1022 ≤ place) (most : place ≤ 1020) : IsBound (number * 2 ^ place) := by
  rcases eq_or_ne number 0 with rfl | some
  · rw [Int.cast_zero, zero_mul]
    exact isBound_zero
  have size : |(number * 2 ^ place : ℚ)| = number.natAbs * 2 ^ place := by
    rw [abs_mul, abs_of_pos (two_zpow_pos place), Nat.cast_natAbs, Int.cast_abs]
  have atLeast : (1 : ℚ) ≤ number.natAbs := by exact_mod_cast Int.natAbs_pos.mpr some
  have fewer : number.natAbs ≤ 12 := by
    have bounds := abs_le.mp few
    omega
  have atMost : (number.natAbs : ℚ) ≤ 12 := by exact_mod_cast fewer
  rw [IsBound, size]
  apply isSize_mul (by omega)
  · calc (2 : ℚ) ^ (-1022 : ℤ) ≤ 2 ^ place := two_zpow_le.mpr least
      _ ≤ number.natAbs * 2 ^ place :=
          le_mul_of_one_le_left (two_zpow_pos place).le atLeast
  · have split : (2 : ℚ) ^ (1020 : ℤ) = 2 ^ (49 : ℤ) * 2 ^ (971 : ℤ) :=
        two_zpow_add 49 971
    calc (number.natAbs * 2 ^ place : ℚ) ≤ 12 * 2 ^ (1020 : ℤ) :=
          mul_le_mul atMost (two_zpow_le.mpr most) (two_zpow_pos place).le (by norm_num)
      _ = 12 * 2 ^ (49 : ℤ) * 2 ^ (971 : ℤ) := by rw [split, mul_assoc]
      _ < overflowThreshold := by
          rw [overflowThreshold_eq]
          exact mul_lt_mul_of_pos_right (by norm_num) (two_zpow_pos 971)

theorem isBound_power {place : ℤ} (least : -1022 ≤ place) (most : place ≤ 1020) :
    IsBound (2 ^ place) := by
  have single := isBound_multiple 1 (by norm_num) least most
  rwa [Int.cast_one, one_mul] at single

theorem isBound_reach (number : ℤ) (few : |number| ≤ 12) : IsBound (number * reach) :=
  isBound_multiple number few (by norm_num) (by norm_num)

theorem isBound_reach_sq (number : ℤ) (few : |number| ≤ 12) :
    IsBound (number * (reach * reach)) := by
  have square : reach * reach = 2 ^ (1020 : ℤ) := (two_zpow_add 510 510).symm
  rw [square]
  exact isBound_multiple number few (by norm_num) (by norm_num)

def Spans (low high : ℤ) (x : Float) : Prop := Within (low * reach) (high * reach) x

theorem hasValue_power {x : Float} {place : ℤ} {positive : 0 < 2 ^ 52}
    (unpacked : x.toModel.unpack = .finite .positive (2 ^ 52) (place - 52) positive) :
    HasValue x (2 ^ place) := by
  have value : ((2 ^ 52 : ℕ) * 2 ^ (place - 52) : ℚ) = 2 ^ place := by
    have full : ((2 ^ 52 : ℕ) : ℚ) = 2 ^ (52 : ℤ) := by norm_num
    rw [full, ← two_zpow_add, add_sub_cancel]
  rw [HasValue, unpacked, ← value]
  rfl

theorem hasValue_two : HasValue 2.0 2 := by
  have power : HasValue 2.0 (2 ^ (1 : ℤ)) := @hasValue_power _ 1 (by decide) rfl
  rwa [zpow_one] at power

theorem hasValue_four : HasValue 4.0 4 := by
  have power : HasValue 4.0 (2 ^ (2 : ℤ)) := @hasValue_power _ 2 (by decide) rfl
  have four : (2 : ℚ) ^ (2 : ℤ) = 4 := by norm_num
  rwa [four] at power

namespace Spans

variable {low high low' high' least most : ℤ} {x y : Float}

theorem isFinite (spans : Spans low high x) : x.isFinite = true := by
  rcases spans with ⟨value, stands, -⟩
  exact stands.isFinite

theorem sub (spans : Spans low high x) (otherSpans : Spans low' high' y)
    (isLeast : least = low - high') (isMost : most = high - low')
    (leastSmall : |least| ≤ 12) (mostSmall : |most| ≤ 12) : Spans least most (x - y) := by
  rcases spans with ⟨value, stands, above, below⟩
  rcases otherSpans with ⟨other, otherStands, otherAbove, otherBelow⟩
  apply within_sub stands otherStands (isBound_reach least leastSmall)
    (isBound_reach most mostSmall)
  · rw [isLeast]
    push_cast
    linarith
  · rw [isMost]
    push_cast
    linarith

theorem mul (factor : ℕ) {constant : Float} (isConstant : HasValue constant factor)
    (spans : Spans low high x) (isLeast : least = factor * low)
    (isMost : most = factor * high)
    (leastSmall : |least| ≤ 12) (mostSmall : |most| ≤ 12) :
    Spans least most (constant * x) := by
  rcases spans with ⟨value, stands, above, below⟩
  have nonneg : (0 : ℚ) ≤ factor := Nat.cast_nonneg factor
  apply within_mul isConstant stands (isBound_reach least leastSmall)
    (isBound_reach most mostSmall)
  · rw [isLeast]
    push_cast
    rw [mul_assoc]
    exact mul_le_mul_of_nonneg_left above nonneg
  · rw [isMost]
    push_cast
    rw [mul_assoc]
    exact mul_le_mul_of_nonneg_left below nonneg

theorem comparable_mul (spans : Spans low high x) (otherSpans : Spans low' high' y) :
    x * y ≤ x * y := by
  rcases spans with ⟨value, stands, -⟩
  rcases otherSpans with ⟨other, otherStands, -⟩
  exact stands.comparable_mul otherStands

theorem abs_le_mul {size : ℤ} {value : ℚ} (above : low * reach ≤ value)
    (below : value ≤ high * reach) (isSize : -size ≤ low ∧ high ≤ size) :
    |value| ≤ size * reach := by
  have least : (-size : ℚ) ≤ low := by exact_mod_cast isSize.1
  have most : (high : ℚ) ≤ size := by exact_mod_cast isSize.2
  rw [abs_le]
  constructor
  · nlinarith [reach_pos]
  · nlinarith [reach_pos]

/-- The product of sizes that are small enough together. -/
theorem isFinite_mul (size size' : ℤ) (spans : Spans low high x)
    (otherSpans : Spans low' high' y)
    (isSize : -size ≤ low ∧ high ≤ size) (isSize' : -size' ≤ low' ∧ high' ≤ size')
    (few : |size * size'| ≤ 12) : (x * y).isFinite = true := by
  rcases spans with ⟨value, stands, above, below⟩
  rcases otherSpans with ⟨other, otherStands, otherAbove, otherBelow⟩
  have product : |value * other| ≤ (size * size' : ℤ) * (reach * reach) := by
    have most := abs_le_mul above below isSize
    have most' := abs_le_mul otherAbove otherBelow isSize'
    push_cast
    rw [abs_mul, mul_mul_mul_comm]
    exact mul_le_mul most most' (abs_nonneg other) ((abs_nonneg value).trans most)
  have few' : |-(size * size')| ≤ 12 := by rwa [abs_neg]
  have bounds := abs_le.mp product
  obtain ⟨result, isResult, -⟩ := within_mul stands otherStands (isBound_reach_sq _ few')
    (isBound_reach_sq _ few) (by push_cast at bounds ⊢; linarith) bounds.2
  exact isResult.isFinite

end Spans

/-! ## Corrected lengths -/

/-- A float times a power of two is a float if that is neither too small nor too large. -/
theorem isBound_scaled {x : Float} {value : ℚ} (stands : HasValue x value) {place : ℤ}
    (least : 2 ^ (-480 : ℤ) ≤ value * 2 ^ place) (most : value * 2 ^ place ≤ 12 * reach) :
    IsBound (value * 2 ^ place) := by
  have positive := (two_zpow_pos (-480)).trans_le least
  have size : |value| * 2 ^ place = value * 2 ^ place := by
    rw [← abs_of_pos (two_zpow_pos place), ← abs_mul, abs_of_pos positive, abs_of_pos]
    exact two_zpow_pos place
  have normal : (2 : ℚ) ^ (-1022 : ℤ) ≤ |value| * 2 ^ place := by
    rw [size]
    exact (two_zpow_le.mpr (by norm_num)).trans least
  have inRange : |value| * 2 ^ place < overflowThreshold := by
    have bound := (isBound_reach 12 (by norm_num)).inRange
    rw [abs_of_pos (mul_pos (by norm_num) reach_pos)] at bound
    push_cast at bound
    rw [size]
    exact most.trans_lt bound
  have isSize := stands.isSize_scaled normal inRange
  rwa [size, ← abs_of_pos positive] at isSize

theorem hasValue_double {x : Float} {value : ℚ} (stands : HasValue x value)
    (least : 2 ^ (-480 : ℤ) ≤ value) (most : value ≤ 6 * reach) :
    HasValue (2.0 * x) (2 * value) := by
  have positive := two_zpow_pos (-480)
  have isBound : IsBound (value * 2 ^ (1 : ℤ)) := by
    apply isBound_scaled stands
    · rw [zpow_one]
      linarith
    · rw [zpow_one]
      linarith
  rw [zpow_one, mul_comm] at isBound
  exact hasValue_two.mul_exact stands isBound

/-- The sides of a vector that needs no scaling, and its length, all with room for a
doubled product. The length is not zero. -/
structure Sides (longer shorter length : Float) : Prop where
  isLonger : Spans 0 2 longer
  isShorter : Spans 0 2 shorter
  slope : Spans (-2) 2 (longer - 2.0 * shorter)
  isLength : Spans 0 3 length
  doubled : ∃ double, HasValue (2.0 * length) double ∧ double ≠ 0

theorem sides_of_hasValue {longer shorter : Float} {long short : ℚ}
    (stands : HasValue longer long)
    (otherStands : HasValue shorter short) (least : 2 ^ (-480 : ℤ) ≤ short)
    (ordered : short ≤ long) (most : long ≤ 2 * reach) :
    Sides longer shorter (longer * longer + shorter * shorter).sqrt := by
  have positive := two_zpow_pos (-480)
  have tiny : IsBound (2 ^ (-480 : ℤ) * 2 ^ (-480 : ℤ)) := by
    rw [← two_zpow_add]
    exact isBound_power (by norm_num) (by norm_num)
  have square : ∀ {side : Float} {value : ℚ}, HasValue side value →
      2 ^ (-480 : ℤ) ≤ value →
      value ≤ 2 * reach →
        Within (2 ^ (-480 : ℤ) * 2 ^ (-480 : ℤ)) ((4 : ℤ) * (reach * reach))
          (side * side) := by
    intro side value isValue atLeast atMost
    apply within_mul isValue isValue tiny (isBound_reach_sq 4 (by norm_num))
    · exact mul_le_mul atLeast atLeast positive.le (positive.le.trans atLeast)
    · push_cast
      nlinarith
  obtain ⟨area, isArea, areaLeast, areaMost⟩ := square stands (least.trans ordered) most
  obtain ⟨area', isArea', areaLeast', areaMost'⟩ :=
      square otherStands least (ordered.trans most)
  push_cast at areaMost areaMost'
  obtain ⟨sum, isSum, sumLeast, sumMost⟩ := within_add isArea isArea' tiny
    (isBound_reach_sq 8 (by norm_num)) (by linarith [mul_pos positive positive])
    (by push_cast; linarith)
  push_cast at sumMost
  have rootBound : IsBound ((3 : ℕ) * reach) := by
    have bound := isBound_reach 3 (by norm_num)
    rwa [Int.cast_ofNat] at bound
  have sumBelow : sum ≤ (3 : ℕ) * reach * ((3 : ℕ) * reach) := by
    rw [Nat.cast_ofNat]
    nlinarith [reach_pos]
  obtain ⟨root, isRoot, rootLeast, rootMost⟩ := within_sqrt isSum (by norm_num)
    (isBound_power (by norm_num) (by norm_num)) rootBound sumLeast sumBelow
  rw [Nat.cast_ofNat] at rootMost
  change root ≤ 3 * reach at rootMost
  have doubled := hasValue_double otherStands least (by linarith)
  refine ⟨⟨long, stands, ?_, ?_⟩, ⟨short, otherStands, ?_, ?_⟩, ?_,
    ⟨root, isRoot, ?_, ?_⟩, 2 * root, hasValue_double isRoot rootLeast (by linarith), ?_⟩
  · push_cast
    linarith
  · push_cast
    linarith
  · push_cast
    linarith
  · push_cast
    linarith
  · apply within_sub stands doubled (isBound_reach (-2) (by norm_num))
      (isBound_reach 2 (by norm_num))
    · push_cast
      linarith
    · push_cast
      linarith
  · push_cast
    linarith
  · exact rootMost
  · exact (mul_pos two_pos (positive.trans_le rootLeast)).ne'

namespace Sides

variable {longer shorter length : Float}

/-- Near the diagonal the first term is in the range and the other one a number. -/
theorem comparable_diagonal (sides : Sides longer shorter length) :
    let excess := length - shorter
    let residual :=
      longer * (2.0 * excess - longer) + (excess - 2.0 * (longer - shorter)) * excess
    residual ≤ residual := by
  intro excess residual
  have isExcess : Spans (-2) 3 excess :=
    sides.isLength.sub sides.isShorter (by decide) (by decide) (by decide) (by decide)
  have doubled : Spans (-4) 6 (2.0 * excess) :=
    .mul 2 hasValue_two isExcess (by decide) (by decide) (by decide) (by decide)
  have factor : Spans (-6) 6 (2.0 * excess - longer) :=
    doubled.sub sides.isLonger (by decide) (by decide) (by decide) (by decide)
  have first : (longer * (2.0 * excess - longer)).isFinite = true :=
    Spans.isFinite_mul 2 6 sides.isLonger factor (by decide) (by decide) (by decide)
  have rest : Spans (-2) 2 (longer - shorter) :=
    sides.isLonger.sub sides.isShorter (by decide) (by decide) (by decide) (by decide)
  have twice : Spans (-4) 4 (2.0 * (longer - shorter)) :=
    .mul 2 hasValue_two rest (by decide) (by decide) (by decide) (by decide)
  have factor' : Spans (-6) 7 (excess - 2.0 * (longer - shorter)) :=
    isExcess.sub twice (by decide) (by decide) (by decide) (by decide)
  exact comparable_add first (factor'.comparable_mul isExcess)

/-- Near an axis both terms are, the second one because its last part is in the range. -/
theorem comparable_axis (sides : Sides longer shorter length) :
    let excess := length - longer
    let residual := 2.0 * excess * (longer - 2.0 * shorter) +
      ((4.0 * excess - shorter) * shorter + excess * excess)
    residual ≤ residual := by
  intro excess residual
  have isExcess : Spans (-2) 3 excess :=
    sides.isLength.sub sides.isLonger (by decide) (by decide) (by decide) (by decide)
  have doubled : Spans (-4) 6 (2.0 * excess) :=
    .mul 2 hasValue_two isExcess (by decide) (by decide) (by decide) (by decide)
  have first : (2.0 * excess * (longer - 2.0 * shorter)).isFinite = true :=
    Spans.isFinite_mul 6 2 doubled sides.slope (by decide) (by decide) (by decide)
  have fourfold : Spans (-8) 12 (4.0 * excess) :=
    .mul 4 hasValue_four isExcess (by decide) (by decide) (by decide) (by decide)
  have factor : Spans (-10) 12 (4.0 * excess - shorter) :=
    fourfold.sub sides.isShorter (by decide) (by decide) (by decide) (by decide)
  have square : (excess * excess).isFinite = true :=
    Spans.isFinite_mul 3 3 isExcess isExcess (by decide) (by decide) (by decide)
  exact comparable_add first
    (comparable_add_of_right (factor.comparable_mul sides.isShorter) square)

end Sides

theorem comparable_correctedLength {longer shorter : Float} {long short : ℚ}
    (stands : HasValue longer long) (otherStands : HasValue shorter short)
    (least : 2 ^ (-480 : ℤ) ≤ short) (ordered : short ≤ long) (most : long ≤ 2 * reach) :
    correctedLength longer shorter ≤ correctedLength longer shorter := by
  have sides := sides_of_hasValue stands otherStands least ordered most
  obtain ⟨double, isDouble, some⟩ := sides.doubled
  obtain ⟨sign, mantissa, place, positive, unpacked⟩ := isDouble.exists_unpack some
  unfold correctedLength
  apply comparable_sub sides.isLength.isFinite
  apply comparable_div _ unpacked
  split
  · exact sides.comparable_diagonal
  · exact sides.comparable_axis

/-! ## Lengths -/

theorem unpack_small : (Binary.toFloat ⟨false, 1, -600⟩).toModel.unpack =
    .finite .positive (2 ^ 52) (-600 - 52) (by decide) := rfl

theorem unpack_large : (Binary.toFloat ⟨false, 1, 600⟩).toModel.unpack =
    .finite .positive (2 ^ 52) (600 - 52) (by decide) := rfl

theorem hasValue_negligible : HasValue (Binary.toFloat ⟨false, 1, -54⟩) (2 ^ (-54 : ℤ)) :=
  @hasValue_power _ (-54) (by decide) rfl

theorem HasValue.abs_lt {x : Float} {value : ℚ} (stands : HasValue x value) :
    |value| < 2 ^ (1024 : ℤ) := by
  rcases stands.cases with
      ⟨-, -, rfl⟩ | ⟨sign, mantissa, place, canonical, inRange, -, rfl⟩
  · rw [abs_zero]
    exact two_zpow_pos 1024
  · rw [abs_signed canonical.size_pos.le]
    exact (canonical.lt_overflowThreshold inRange).trans overflowThreshold_lt

theorem HasValue.two_zpow_le_abs {x : Float} {value : ℚ} (stands : HasValue x value)
    (some : value ≠ 0) : 2 ^ (-1074 : ℤ) ≤ |value| := by
  rcases stands.cases with ⟨-, -, rfl⟩ | ⟨sign, mantissa, place, canonical, -, -, rfl⟩
  · exact absurd rfl some
  · have one : (1 : ℚ) ≤ mantissa := by exact_mod_cast canonical.positive
    rw [abs_signed canonical.size_pos.le]
    calc (2 : ℚ) ^ (-1074 : ℤ) ≤ 2 ^ place := two_zpow_le.mpr canonical.least
      _ ≤ mantissa * 2 ^ place := le_mul_of_one_le_left (two_zpow_pos place).le one

theorem two_zpow_add_le {low : ℤ} {value : ℚ} (place : ℤ) (least : 2 ^ low ≤ value) :
    2 ^ (low + place) ≤ value * 2 ^ place := by
  rw [two_zpow_add]
  exact mul_le_mul_of_nonneg_right least (two_zpow_pos place).le

theorem le_two_zpow_add {high : ℤ} {value : ℚ} (place : ℤ) (most : value ≤ 2 ^ high) :
    value * 2 ^ place ≤ 2 ^ (high + place) := by
  rw [two_zpow_add]
  exact mul_le_mul_of_nonneg_right most (two_zpow_pos place).le

section

variable {longer shorter : Float} {long short : ℚ} (stands : HasValue longer long)
  (otherStands : HasValue shorter short) (ordered : short ≤ long)

include stands otherStands

/-- What is not negligible is not below the last bits of the longer part. -/
theorem lt_of_not_negligible (some : ¬shorter ≤ longer * Binary.toFloat ⟨false, 1, -54⟩)
    {low : ℚ}
    (isLow : IsBound low) (below : low ≤ long * 2 ^ (-54 : ℤ)) : low < short := by
  have inRange := (le_abs_self long).trans_lt stands.abs_lt
  have high : long * 2 ^ (-54 : ℤ) ≤ 2 ^ (970 : ℤ) :=
    (le_two_zpow_add (-54) inRange.le).trans (two_zpow_le.mpr (by norm_num))
  obtain ⟨product, isProduct, above, -⟩ := within_mul stands hasValue_negligible isLow
    (isBound_power (by norm_num) (by norm_num)) below high
  rw [otherStands.le_iff isProduct, not_le] at some
  exact above.trans_lt some

include ordered

/-- Scaled by a power of two, the parts are exact and need no scaling any more. -/
theorem comparable_scaled {power : Float} {place : ℤ}
    (isPower : HasValue power (2 ^ place))
    (least : 2 ^ (-480 : ℤ) ≤ short * 2 ^ place) (most : long * 2 ^ place ≤ 2 * reach) :
    correctedLength (longer * power) (shorter * power) ≤
      correctedLength (longer * power) (shorter * power) := by
  have inOrder : short * 2 ^ place ≤ long * 2 ^ place :=
    mul_le_mul_of_nonneg_right ordered (two_zpow_pos place).le
  have room := reach_pos
  have isLonger := stands.mul_exact isPower
    (isBound_scaled stands (least.trans inOrder) (by linarith))
  have isShorter := otherStands.mul_exact isPower
    (isBound_scaled otherStands least (by linarith))
  exact comparable_correctedLength isLonger isShorter least inOrder most

variable (some : ¬shorter ≤ longer * Binary.toFloat ⟨false, 1, -54⟩)

include some

/-- Parts that are too large are scaled down, and none of their bits are lost. -/
theorem comparable_scaledDown (large : 2 ^ (511 : ℤ) < long) :
    let small : Float := Binary.toFloat ⟨false, 1, -600⟩
    let length :=
      correctedLength (longer * small) (shorter * small) * Binary.toFloat ⟨false, 1, 600⟩
    length ≤ length := by
  have least : (2 : ℚ) ^ (457 : ℤ) < short :=
    lt_of_not_negligible stands otherStands some
      (isBound_power (by norm_num) (by norm_num))
      (two_zpow_add_le (-54) large.le)
  apply comparable_mul _ unpack_large
  apply comparable_scaled stands otherStands ordered (hasValue_power unpack_small)
  · calc (2 : ℚ) ^ (-480 : ℤ) ≤ 2 ^ (457 + -600 : ℤ) := two_zpow_le.mpr (by norm_num)
      _ ≤ short * 2 ^ (-600 : ℤ) := two_zpow_add_le (-600) least.le
  · have inRange := (le_abs_self long).trans_lt stands.abs_lt
    calc long * 2 ^ (-600 : ℤ) ≤ 2 ^ (1024 + -600 : ℤ) :=
        le_two_zpow_add (-600) inRange.le
      _ ≤ 2 ^ (511 : ℤ) := two_zpow_le.mpr (by norm_num)
      _ = 2 * reach := two_zpow_add 1 510

/-- So are parts that are too small scaled up. The longer one is small as well then. -/
theorem comparable_scaledUp (nonneg : 0 ≤ short) (small : short < 2 ^ (-459 : ℤ)) :
    let large : Float := Binary.toFloat ⟨false, 1, 600⟩
    let length :=
      correctedLength (longer * large) (shorter * large) * Binary.toFloat ⟨false, 1, -600⟩
    length ≤ length := by
  have reaches : ∀ {low : ℚ}, IsBound low → low ≤ long * 2 ^ (-54 : ℤ) → low < short :=
    lt_of_not_negligible stands otherStands some
  apply comparable_mul _ unpack_small
  apply comparable_scaled stands otherStands ordered (hasValue_power unpack_large)
  · have positive : 0 < short :=
      reaches isBound_zero (mul_nonneg (nonneg.trans ordered) (two_zpow_pos (-54)).le)
    have least := otherStands.two_zpow_le_abs positive.ne'
    rw [abs_of_pos positive] at least
    calc (2 : ℚ) ^ (-480 : ℤ) ≤ 2 ^ (-1074 + 600 : ℤ) := two_zpow_le.mpr (by norm_num)
      _ ≤ short * 2 ^ (600 : ℤ) := two_zpow_add_le 600 least
  · have close : long < 2 ^ (-89 : ℤ) := by
      by_contra far
      have least : (2 : ℚ) ^ (-143 : ℤ) < short :=
        reaches (isBound_power (by norm_num) (by norm_num))
          (two_zpow_add_le (-54) (not_lt.mp far))
      exact absurd small (not_lt.mpr ((two_zpow_le.mpr (by norm_num)).trans least.le))
    calc long * 2 ^ (600 : ℤ) ≤ 2 ^ (-89 + 600 : ℤ) := le_two_zpow_add 600 close.le
      _ = 2 * reach := two_zpow_add 1 510

omit some

theorem comparable_length (nonneg : 0 ≤ short) :
    let negligible : Float := Binary.toFloat ⟨false, 1, -54⟩
    let small : Float := Binary.toFloat ⟨false, 1, -600⟩
    let large : Float := Binary.toFloat ⟨false, 1, 600⟩
    let length :=
      if shorter ≤ longer * negligible then longer + shorter
      else if Binary.toFloat ⟨false, 1, 511⟩ < longer then
        correctedLength (longer * small) (shorter * small) * large
      else if shorter < Binary.toFloat ⟨false, 1, -459⟩ then
        correctedLength (longer * large) (shorter * large) * small
      else correctedLength longer shorter
    length ≤ length := by
  intro negligible small large length
  have top : HasValue (Binary.toFloat ⟨false, 1, 511⟩) (2 ^ (511 : ℤ)) :=
    @hasValue_power _ 511 (by decide) rfl
  have bottom : HasValue (Binary.toFloat ⟨false, 1, -459⟩) (2 ^ (-459 : ℤ)) :=
    @hasValue_power _ (-459) (by decide) rfl
  have doubled : (2 : ℚ) ^ (511 : ℤ) = 2 * reach := two_zpow_add 1 510
  by_cases few : shorter ≤ longer * negligible
  · simp only [length, if_pos few]
    exact comparable_add stands.isFinite (comparable_of_isFinite otherStands.isFinite)
  simp only [length, if_neg few]
  split
  · rename_i far
    exact comparable_scaledDown stands otherStands ordered few
      ((top.lt_iff stands).mp far)
  split
  · rename_i close
    exact comparable_scaledUp stands otherStands ordered few nonneg
      ((otherStands.lt_iff bottom).mp close)
  · rename_i notFar notClose
    rw [top.lt_iff stands, not_lt, doubled] at notFar
    rw [otherStands.lt_iff bottom, not_lt] at notClose
    exact comparable_correctedLength stands otherStands
      ((two_zpow_le.mpr (by norm_num)).trans notClose) ordered notFar

end

theorem isInf_of_comparable {x : Float} (comparable : x ≤ x)
    (notFinite : x.isFinite = false) :
    x.isInf = true := by
  rcases isFinite_or_special x with finite | rfl | rfl | rfl
  · rw [finite] at notFinite
    cases notFinite
  · decide
  · decide
  · exact absurd comparable (by decide)

/-- The length of a vector of numbers is a number. -/
theorem comparable_hypot {x y : Float} (comparable : x ≤ x) (otherComparable : y ≤ y) :
    hypot x y ≤ hypot x y := by
  unfold hypot
  cases finite : x.isFinite with
  | false =>
      simp only [Bool.false_and, Bool.not_false, if_true,
        isInf_of_comparable comparable finite, Bool.true_or]
      decide
  | true =>
      cases otherFinite : y.isFinite with
      | false =>
          simp only [Bool.and_false, Bool.not_false, if_true,
            isInf_of_comparable otherComparable otherFinite, Bool.or_true]
          decide
      | true =>
          simp only [Bool.and_self, Bool.not_true, Bool.false_eq_true, if_false]
          obtain ⟨value, stands⟩ := isFinite_iff_hasValue.mp finite
          obtain ⟨other, otherStands⟩ := isFinite_iff_hasValue.mp otherFinite
          have nonneg := abs_nonneg value
          have otherNonneg := abs_nonneg other
          by_cases less : x.abs < y.abs
          · simp only [if_pos less]
            have ordered := (stands.abs.lt_iff otherStands.abs).mp less
            exact comparable_length otherStands.abs stands.abs ordered.le nonneg
          · simp only [if_neg less]
            have ordered := not_lt.mp (mt (stands.abs.lt_iff otherStands.abs).mpr less)
            exact comparable_length stands.abs otherStands.abs ordered otherNonneg

end Photoplot.Binary64
