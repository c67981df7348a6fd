import Photoplot.Proofs.Binary64.Range

/-! # Floats between bounds

What lies between two floats before it is rounded lies between them afterwards. So sums,
differences and products of floats between bounds stay between bounds, and within the
range, if the bounds are floats. -/

namespace Photoplot.Binary64

open Float.Model Float.Model.UnpackedFloat

/-! ## Values -/

def signed : Sign → ℚ → ℚ
  | .positive, size => size
  | .negative, size => -size

theorem abs_signed {sign : Sign} {size : ℚ} (nonneg : 0 ≤ size) :
    |signed sign size| = size := by
  cases sign with
  | positive => exact abs_of_nonneg nonneg
  | negative => exact (abs_neg size).trans (abs_of_nonneg nonneg)

def value? : UnpackedFloat → Option ℚ
  | .zero _ => some 0
  | .finite sign mantissa place _ => some (signed sign (mantissa * 2 ^ place))
  | _ => none

def HasValue (x : Float) (value : ℚ) : Prop := value ∈ value? x.toModel.unpack

theorem isFinite_iff_hasValue {x : Float} :
    x.isFinite = true ↔ ∃ value, HasValue x value := by
  unfold HasValue
  change x.toModel.unpack.isFinite = true ↔ _
  cases x.toModel.unpack <;> simp [value?, UnpackedFloat.isFinite]

theorem HasValue.isFinite {x : Float} {value : ℚ} (stands : HasValue x value) :
    x.isFinite = true :=
  isFinite_iff_hasValue.mpr ⟨value, stands⟩

/-- A float that stands for a value has it to the last bit. -/
theorem HasValue.cases {x : Float} {value : ℚ} (stands : HasValue x value) :
    (∃ sign, x.toModel.unpack = .zero sign ∧ value = 0) ∨
      ∃ sign mantissa place, ∃ canonical : IsCanonical mantissa place, place ≤ 971 ∧
        x.toModel.unpack = .finite sign mantissa place canonical.positive ∧
        value = signed sign (mantissa * 2 ^ place) := by
  unfold HasValue at stands
  cases unpacked : x.toModel.unpack with
  | zero sign =>
      rw [unpacked] at stands
      exact .inl ⟨sign, rfl, (Option.some.inj stands).symm⟩
  | finite sign mantissa place positive =>
      rw [unpacked] at stands
      obtain ⟨canonical, inRange⟩ := canonical_of_unpack unpacked
      exact .inr ⟨sign, mantissa, place, canonical, inRange, rfl,
        (Option.some.inj stands).symm⟩
  | notANumber =>
      rw [unpacked] at stands
      cases stands
  | infinity sign =>
      rw [unpacked] at stands
      cases stands

/-! ## Order -/

theorem IsCanonical.le_iff {mantissa mantissa' : ℕ} {place place' : ℤ}
    (canonical : IsCanonical mantissa place) (canonical' : IsCanonical mantissa' place') :
    (mantissa * 2 ^ place : ℚ) ≤ mantissa' * 2 ^ place' ↔
      place < place' ∨ place = place' ∧ mantissa ≤ mantissa' := by
  constructor
  · intro ordered
    rcases (canonical.isGrid.mono canonical'.isGrid ordered).lt_or_eq with lower | rfl
    · exact .inl lower
    · have fewer := le_of_mul_le_mul_right ordered (two_zpow_pos place)
      exact .inr ⟨rfl, by exact_mod_cast fewer⟩
  · rintro (lower | ⟨rfl, fewer⟩)
    · by_contra exceeds
      have higher := canonical'.isGrid.mono canonical.isGrid (not_le.mp exceeds).le
      exact absurd higher (not_le.mpr lower)
    · exact mul_le_mul_of_nonneg_right (by exact_mod_cast fewer) (two_zpow_pos place).le

theorem IsCanonical.size_pos {mantissa : ℕ} {place : ℤ}
    (canonical : IsCanonical mantissa place) :
    (0 : ℚ) < mantissa * 2 ^ place :=
  mul_pos (by exact_mod_cast canonical.positive) (two_zpow_pos place)

theorem HasValue.le_iff {x y : Float} {value other : ℚ} (stands : HasValue x value)
    (otherStands : HasValue y other) : x ≤ y ↔ value ≤ other := by
  rw [le_iff_place, place?, place?]
  rcases stands.cases with ⟨sign, unpacked, rfl⟩ |
      ⟨sign, mantissa, place, canonical, -, unpacked, rfl⟩ <;>
    rcases otherStands.cases with ⟨sign', unpacked', rfl⟩ |
      ⟨sign', mantissa', place', canonical', -, unpacked', rfl⟩ <;>
    rw [unpacked, unpacked']
  · simp [placeUnpacked?]
  · have power := two_zpow_pos place'
    have positive := canonical'.size_pos
    cases sign' with
    | positive => simp [placeUnpacked?, signed, Prod.Lex.toLex_le_toLex, positive.le]
    | negative =>
        simp [placeUnpacked?, signed, Prod.Lex.toLex_le_toLex, canonical'.positive, power]
  · have power := two_zpow_pos place
    have positive := canonical.size_pos
    cases sign with
    | positive => simp [placeUnpacked?, signed, Prod.Lex.toLex_le_toLex,
        canonical.positive, power]
    | negative => simp [placeUnpacked?, signed, Prod.Lex.toLex_le_toLex, positive.le]
  · have positive := canonical.size_pos
    have positive' := canonical'.size_pos
    cases sign with
    | positive =>
        cases sign' with
        | positive =>
            simp [placeUnpacked?, signed, Prod.Lex.toLex_le_toLex,
              canonical.le_iff canonical']
        | negative =>
            refine iff_of_false (by simp [placeUnpacked?, Prod.Lex.toLex_le_toLex])
              (not_le.mpr ?_)
            exact (neg_lt_zero.mpr positive').trans positive
    | negative =>
        cases sign' with
        | positive =>
            refine iff_of_true (by simp [placeUnpacked?, Prod.Lex.toLex_le_toLex]) ?_
            exact (neg_lt_zero.mpr positive).le.trans positive'.le
        | negative =>
            simp only [signed, neg_le_neg_iff, canonical'.le_iff canonical]
            simp [placeUnpacked?, Prod.Lex.toLex_le_toLex, eq_comm]

theorem HasValue.lt_iff {x y : Float} {value other : ℚ} (stands : HasValue x value)
    (otherStands : HasValue y other) : x < y ↔ value < other := by
  rw [← not_le, ← otherStands.le_iff stands]
  constructor
  · exact fun less ordered => not_lt_of_le ordered less
  · intro exceeds
    by_contra notLess
    have comparable := comparable_of_isFinite stands.isFinite
    have otherComparable := comparable_of_isFinite otherStands.isFinite
    exact exceeds (Scalar.Ordered.le_of_not_lt comparable otherComparable notLess)

/-! ## Rounded sizes in order -/

theorem IsRounded.mono {sign other : Sign} {size greater : ℚ}
    {float beyond : UnpackedFloat}
    (rounded : IsRounded sign size float) (otherRounded : IsRounded other greater beyond)
    (ordered : size ≤ greater) :
    ∃ low ∈ size? float, ∃ high ∈ size? beyond, low ≤ high := by
  obtain ⟨place, mantissa, grid, nearest, rfl⟩ := rounded
  obtain ⟨place', mantissa', grid', nearest', rfl⟩ := otherRounded
  refine ⟨_, size_assemble sign (grid.mantissa_le nearest), _,
    size_assemble other (grid'.mantissa_le nearest'), ?_⟩
  rcases (grid.mono grid' ordered).lt_or_eq with lower | rfl
  · have full : (mantissa : ℚ) ≤ 2 ^ (53 : ℤ) := by
      exact_mod_cast grid.mantissa_le nearest
    have normal : (2 : ℚ) ^ (52 : ℤ) ≤ mantissa' := by
      have least := grid.least
      exact_mod_cast (grid'.normal nearest').resolve_left (by omega)
    calc (mantissa * 2 ^ place : ℚ) ≤ 2 ^ (53 : ℤ) * 2 ^ place :=
          mul_le_mul_of_nonneg_right full (two_zpow_pos place).le
      _ = 2 ^ (53 + place) := (two_zpow_add 53 place).symm
      _ ≤ 2 ^ (52 + place') := two_zpow_le.mpr (by omega)
      _ = 2 ^ (52 : ℤ) * 2 ^ place' := two_zpow_add 52 place'
      _ ≤ mantissa' * 2 ^ place' :=
          mul_le_mul_of_nonneg_right normal (two_zpow_pos place').le
  · apply mul_le_mul_of_nonneg_right _ (two_zpow_pos place).le
    have fewer :=
        nearest.mono nearest' (div_le_div_of_nonneg_right ordered (two_zpow_pos place).le)
    exact_mod_cast fewer

structure IsSize (size : ℚ) : Prop where
  inRange : size < overflowThreshold
  exact : ∃ float, IsRounded .positive size float ∧ size ∈ size? float

theorem isSize_zero : IsSize 0 :=
  ⟨overflowThreshold_pos, .zero .positive, isRounded_zero .positive, rfl⟩

/-- What has few bits, and is not too small for all of them, is the size of a float. -/
theorem isSize_mul {number : ℕ} {place : ℤ} (few : number < 2 ^ 53)
    (normal : 2 ^ (-1022 : ℤ) ≤ (number * 2 ^ place : ℚ))
    (inRange : (number * 2 ^ place : ℚ) < overflowThreshold) :
    IsSize (number * 2 ^ place) := by
  have some : number ≠ 0 := by
    rintro rfl
    rw [Nat.cast_zero, zero_mul] at normal
    exact absurd normal (not_le.mpr (two_zpow_pos _))
  obtain ⟨mantissa, lower, canonical, full, -, same⟩ := exists_canonical some few
  have moved : (number * 2 ^ place : ℚ) = mantissa * 2 ^ (lower + place) := by
    rw [← same, two_zpow_add, mul_assoc]
  rw [moved] at normal inRange ⊢
  have least : -1074 ≤ lower + place := by
    have short : (mantissa : ℚ) < 2 ^ (53 : ℤ) := by exact_mod_cast canonical.small
    have less := normal.trans_lt (mul_lt_mul_of_pos_right short (two_zpow_pos _))
    rw [← two_zpow_add] at less
    have exponents := two_zpow_lt.mp less
    omega
  have lowered : IsCanonical mantissa (lower + place) :=
    ⟨canonical.positive, canonical.small, least, .inr full⟩
  exact ⟨inRange, _, lowered.isRounded .positive, rfl⟩

theorem IsRounded.value_eq {sign : Sign} {size : ℚ} {float : UnpackedFloat}
    (rounded : IsRounded sign size float) :
    value? float = (size? float).map (signed sign) := by
  obtain ⟨place, mantissa, -, -, rfl⟩ := rounded
  unfold assemble
  split
  · split
    · rfl
    · rfl
  · cases sign with
    | positive => rfl
    | negative => simp [value?, size?, signed]

theorem size_nonneg {float : UnpackedFloat} {size : ℚ} (isSize : size ∈ size? float) :
    0 ≤ size := by
  cases float with
  | zero sign => exact (Option.some.inj isSize).le
  | finite sign mantissa place positive =>
      rw [← Option.some.inj isSize]
      exact mul_nonneg (Nat.cast_nonneg _) (two_zpow_pos place).le
  | notANumber => cases isSize
  | infinity sign => cases isSize

/-- In the range there is no limit. -/
theorem IsRounded.limit_eq {sign : Sign} {size : ℚ} {float : UnpackedFloat}
    (rounded : IsRounded sign size float) (inRange : size < overflowThreshold) :
    limit float = float := by
  have finite := rounded.isFinite_iff.mpr inRange
  cases float with
  | finite sign mantissa place positive =>
      exact limit_of_le (isFinite_limit_iff.mp finite)
  | zero sign => rfl
  | notANumber => rfl
  | infinity sign => rfl

/-- What is rounded from between two sizes is finite, and between them. -/
theorem IsRounded.between {sign : Sign} {size high : ℚ} {float : UnpackedFloat}
    (rounded : IsRounded sign size float) (isHigh : IsSize high) (ordered : size ≤ high) :
    ∃ reached,
      value? (limit float) = some (signed sign reached) ∧ 0 ≤ reached ∧ reached ≤ high ∧
      ∀ low, IsSize low → low ≤ size → low ≤ reached := by
  obtain ⟨bound, boundRounded, isBound⟩ := isHigh.exact
  obtain ⟨reached, isReached, most, isMost, above⟩ := rounded.mono boundRounded ordered
  rcases Option.mem_unique isMost isBound with rfl
  refine ⟨reached, ?_, size_nonneg isReached, above, fun low isLow below => ?_⟩
  · rw [rounded.limit_eq (ordered.trans_lt isHigh.inRange), rounded.value_eq, isReached,
      Option.map_some]
  · obtain ⟨least, leastRounded, isLeast⟩ := isLow.exact
    obtain ⟨same, isSame, other, isOther, ordered⟩ := leastRounded.mono rounded below
    rcases Option.mem_unique isSame isLeast with rfl
    rcases Option.mem_unique isOther isReached with rfl
    exact ordered

/-! ## Rounded values between bounds -/

def Rounds (value : ℚ) (float : UnpackedFloat) : Prop :=
  ∃ sign size, 0 ≤ size ∧ value = signed sign size ∧ IsRounded sign size float

theorem Rounds.unpack_pack {value : ℚ} {float : UnpackedFloat}
    (rounds : Rounds value float) :
    (Float.Model.pack float).unpack = limit float := by
  obtain ⟨sign, size, -, -, rounded⟩ := rounds
  exact rounded.unpack_pack

def IsBound (value : ℚ) : Prop := IsSize |value|

def Within (low high : ℚ) (x : Float) : Prop :=
  ∃ value, HasValue x value ∧ low ≤ value ∧ value ≤ high

theorem Rounds.within {value low high : ℚ} {float : UnpackedFloat}
    (rounds : Rounds value float)
    {x : Float} (packed : x.toModel.unpack = (Float.Model.pack float).unpack)
    (isLow : IsBound low) (isHigh : IsBound high) (above : low ≤ value)
    (below : value ≤ high) :
    Within low high x := by
  rw [rounds.unpack_pack] at packed
  obtain ⟨sign, size, nonneg, rfl, rounded⟩ := rounds
  cases sign with
  | positive =>
      change low ≤ size at above
      change size ≤ high at below
      rw [IsBound, abs_of_nonneg (nonneg.trans below)] at isHigh
      obtain ⟨reached, isReached, reachedNonneg, atMost, atLeast⟩ :=
          rounded.between isHigh below
      refine ⟨reached, ?_, ?_, atMost⟩
      · rw [HasValue, packed]
        exact isReached
      · rcases le_total low 0 with nonpos | lowNonneg
        · exact nonpos.trans reachedNonneg
        · rw [IsBound, abs_of_nonneg lowNonneg] at isLow
          exact atLeast low isLow above
  | negative =>
      change low ≤ -size at above
      change -size ≤ high at below
      rw [IsBound, abs_of_nonpos (by linarith)] at isLow
      obtain ⟨reached, isReached, reachedNonneg, atMost, atLeast⟩ :=
        rounded.between isLow (le_neg.mp above)
      refine ⟨-reached, ?_, le_neg.mp atMost, ?_⟩
      · rw [HasValue, packed]
        exact isReached
      · rcases le_total 0 high with highNonneg | nonpos
        · linarith
        · rw [IsBound, abs_of_nonpos nonpos] at isHigh
          linarith [atLeast (-high) isHigh (neg_le.mp below)]

/-! ## Arithmetic -/

theorem signed_eq (sign : Sign) (mantissa : ℕ) (place : ℤ) :
    signed sign (mantissa * 2 ^ place) = (sign.apply mantissa : ℤ) * 2 ^ place := by
  cases sign with
  | positive => rfl
  | negative => simp [signed, Sign.apply]

theorem rounds_zero (sign : Sign) : Rounds 0 (.zero sign) := by
  refine ⟨sign, 0, le_rfl, ?_, isRounded_zero sign⟩
  cases sign with
  | positive => rfl
  | negative => exact neg_zero.symm

theorem rounds_normalize (number exponent : ℤ) :
    Rounds (number * 2 ^ exponent)
      (UnpackedFloat.normalize .binary64 number exponent .positive) := by
  have nonneg : ∀ size : ℕ, (0 : ℚ) ≤ size * 2 ^ exponent := fun size =>
    mul_nonneg (Nat.cast_nonneg _) (two_zpow_pos exponent).le
  unfold UnpackedFloat.normalize
  split
  · rename_i isNegative
    have less := compare_lt_iff_lt.mp isNegative
    have size : ((-number).toNat : ℤ) = -number := by omega
    refine ⟨.negative, (-number).toNat * 2 ^ exponent, nonneg _, ?_,
      isRounded_round _ _ (by omega)⟩
    rw [signed, ← Int.cast_natCast, size]
    push_cast
    ring
  · rename_i isZero
    rw [compare_eq_iff_eq.mp isZero, Int.cast_zero, zero_mul]
    exact rounds_zero .positive
  · rename_i isPositive
    have more := compare_gt_iff_gt.mp isPositive
    have size : (number.toNat : ℤ) = number := by omega
    refine ⟨.positive, number.toNat * 2 ^ exponent, nonneg _, ?_,
      isRounded_round _ _ (by omega)⟩
    rw [signed, ← Int.cast_natCast, size]

/-- A float is what its own value is rounded to. -/
theorem HasValue.rounds {x : Float} {value : ℚ} (stands : HasValue x value) :
    Rounds value x.toModel.unpack := by
  rcases stands.cases with ⟨sign, unpacked, rfl⟩ |
    ⟨sign, mantissa, place, canonical, -, unpacked, rfl⟩
  · rw [unpacked]
    exact rounds_zero sign
  · rw [unpacked]
    exact ⟨sign, _, mul_nonneg (Nat.cast_nonneg _) (two_zpow_pos place).le, rfl,
      canonical.isRounded sign⟩

section

variable {x y : Float} {value other : ℚ}

theorem rounds_add (stands : HasValue x value) (otherStands : HasValue y other) :
    Rounds (value + other)
      (UnpackedFloat.add .binary64 x.toModel.unpack y.toModel.unpack) := by
  have alone := stands.rounds
  have otherAlone := otherStands.rounds
  rcases stands.cases with ⟨sign, unpacked, rfl⟩ |
    ⟨sign, mantissa, place, canonical, -, unpacked, rfl⟩
  · rcases otherStands.cases with ⟨sign', unpacked', rfl⟩ |
      ⟨sign', mantissa', place', canonical', -, unpacked', rfl⟩
    · rw [unpacked, unpacked', add_zero]
      cases sign <;> cases sign' <;> exact rounds_zero _
    · rw [unpacked, unpacked', zero_add]
      rw [unpacked'] at otherAlone
      exact otherAlone
  · rcases otherStands.cases with ⟨sign', unpacked', rfl⟩ |
      ⟨sign', mantissa', place', canonical', -, unpacked', rfl⟩
    · rw [unpacked, unpacked', add_zero]
      rw [unpacked] at alone
      exact alone
    · have lowered : ∀ (sign : Sign) (mantissa : ℕ) (place low : ℤ), low ≤ place →
          signed sign (mantissa * 2 ^ place) =
            (sign.apply ((mantissa <<< (place - low).toNat : ℕ) : ℤ) : ℤ) * 2 ^ low := by
        intro sign mantissa place low fine
        have exponents : ((place - low).toNat : ℤ) + low = place := by omega
        rw [← signed_eq, Nat.shiftLeft_eq]
        push_cast
        rw [mul_assoc, ← zpow_natCast, ← two_zpow_add, exponents]
      rw [unpacked, unpacked']
      simp only [UnpackedFloat.add, decreaseExponent]
      rw [lowered sign _ _ _ (min_le_left place place'),
        lowered sign' _ _ _ (min_le_right place place'), ← add_mul, ← Int.cast_add]
      exact rounds_normalize _ _

theorem rounds_mul (stands : HasValue x value) (otherStands : HasValue y other) :
    Rounds (value * other)
      (UnpackedFloat.mul .binary64 x.toModel.unpack y.toModel.unpack) := by
  rcases stands.cases with ⟨sign, unpacked, rfl⟩ |
    ⟨sign, mantissa, place, canonical, -, unpacked, rfl⟩
  · rw [unpacked, zero_mul]
    rcases otherStands.cases with ⟨sign', unpacked', rfl⟩ |
      ⟨sign', mantissa', place', canonical', -, unpacked', rfl⟩
    · rw [unpacked']
      exact rounds_zero _
    · rw [unpacked']
      exact rounds_zero _
  · rcases otherStands.cases with ⟨sign', unpacked', rfl⟩ |
      ⟨sign', mantissa', place', canonical', -, unpacked', rfl⟩
    · rw [unpacked, unpacked', mul_zero]
      exact rounds_zero _
    · -- both mantissas are short only if both places are the least one
      have long : 2 ^ 52 ≤ mantissa * mantissa' ∨ place + place' ≤ -1074 := by
        rcases canonical.normal with least | normal
        · rcases canonical'.normal with least' | normal'
          · exact .inr (by omega)
          · exact .inl (normal'.trans (Nat.le_mul_of_pos_left _ canonical.positive))
        · exact .inl (normal.trans (Nat.le_mul_of_pos_right _ canonical'.positive))
      have product : signed sign (mantissa * 2 ^ place) *
          signed sign' (mantissa' * 2 ^ place') =
          signed (sign * sign') ((mantissa * mantissa' : ℕ) * 2 ^ (place + place')) := by
        have sizes : ((mantissa * mantissa' : ℕ) * 2 ^ (place + place') : ℚ) =
            mantissa * 2 ^ place * (mantissa' * 2 ^ place') := by
          rw [two_zpow_add]
          push_cast
          ring
        rw [sizes]
        cases sign with
        | positive =>
            cases sign' with
            | positive => rfl
            | negative => exact mul_neg _ _
        | negative =>
            cases sign' with
            | positive => exact neg_mul _ _
            | negative => exact neg_mul_neg _ _
      rw [unpacked, unpacked', product]
      exact ⟨_, _, mul_nonneg (Nat.cast_nonneg _) (two_zpow_pos _).le, rfl,
        isRounded_mul sign sign' place place' canonical.positive canonical'.positive long⟩

theorem HasValue.unpack_neg (stands : HasValue x value) :
    (-x).toModel.unpack = x.toModel.unpack.neg := by
  rw [Binary64.unpack_neg]
  rcases stands.cases with ⟨sign, unpacked, -⟩ |
    ⟨sign, mantissa, place, canonical, inRange, unpacked, -⟩
  · rw [unpacked, UnpackedFloat.neg, unpack_pack_zero]
  · rw [unpacked, UnpackedFloat.neg, unpack_pack_finite _ canonical inRange]

theorem HasValue.neg (stands : HasValue x value) : HasValue (-x) (-value) := by
  rw [HasValue, stands.unpack_neg]
  rcases stands.cases with ⟨sign, unpacked, rfl⟩ |
    ⟨sign, mantissa, place, canonical, -, unpacked, rfl⟩
  · rw [unpacked, neg_zero]
    rfl
  · rw [unpacked]
    cases sign with
    | positive => rfl
    | negative => exact congrArg some (neg_neg _).symm

theorem HasValue.abs (stands : HasValue x value) : HasValue x.abs |value| := by
  have unpacks : x.abs.toModel.unpack = (Float.Model.pack x.toModel.unpack.abs).unpack :=
      rfl
  rw [HasValue, unpacks]
  rcases stands.cases with ⟨sign, unpacked, rfl⟩ |
    ⟨sign, mantissa, place, canonical, inRange, unpacked, rfl⟩
  · rw [unpacked, UnpackedFloat.abs, unpack_pack_zero, abs_zero]
    rfl
  · rw [unpacked, UnpackedFloat.abs, unpack_pack_finite _ canonical inRange,
      abs_signed canonical.size_pos.le]
    rfl

theorem rounds_sub (stands : HasValue x value) (otherStands : HasValue y other) :
    Rounds (value - other)
      (UnpackedFloat.sub .binary64 x.toModel.unpack y.toModel.unpack) := by
  have difference : value - other = value + -other := by ring
  rw [difference, sub_eq_add_neg, ← otherStands.unpack_neg]
  exact rounds_add stands otherStands.neg

/-! ## Results that are numbers -/

theorem Rounds.comparable {float : UnpackedFloat} (rounds : Rounds value float)
    (packed : x.toModel.unpack = (Float.Model.pack float).unpack) : x ≤ x := by
  obtain ⟨sign, size, -, -, rounded⟩ := rounds
  rw [le_self_iff, packed]
  exact unpack_pack_ne_notANumber rounded.ne_notANumber

theorem HasValue.comparable_mul (stands : HasValue x value)
    (otherStands : HasValue y other) :
    x * y ≤ x * y :=
  (rounds_mul stands otherStands).comparable (unpack_mul x y)

theorem HasValue.exists_unpack (stands : HasValue x value) (some : value ≠ 0) :
    ∃ sign mantissa place, ∃ positive : 0 < mantissa,
      x.toModel.unpack = .finite sign mantissa place positive := by
  rcases stands.cases with
      ⟨-, -, rfl⟩ | ⟨sign, mantissa, place, canonical, -, unpacked, -⟩
  · exact absurd rfl some
  · exact ⟨sign, mantissa, place, canonical.positive, unpacked⟩

/-! ## Arithmetic between bounds -/

variable {low high : ℚ}

theorem within_add (stands : HasValue x value) (otherStands : HasValue y other)
    (isLow : IsBound low) (isHigh : IsBound high) (above : low ≤ value + other)
    (below : value + other ≤ high) : Within low high (x + y) :=
  (rounds_add stands otherStands).within (unpack_add x y) isLow isHigh above below

theorem within_sub (stands : HasValue x value) (otherStands : HasValue y other)
    (isLow : IsBound low) (isHigh : IsBound high) (above : low ≤ value - other)
    (below : value - other ≤ high) : Within low high (x - y) :=
  (rounds_sub stands otherStands).within (unpack_sub x y) isLow isHigh above below

theorem within_mul (stands : HasValue x value) (otherStands : HasValue y other)
    (isLow : IsBound low) (isHigh : IsBound high) (above : low ≤ value * other)
    (below : value * other ≤ high) : Within low high (x * y) :=
  (rounds_mul stands otherStands).within (unpack_mul x y) isLow isHigh above below

/-- What has the bits of a float is a float unless it is too small or too large for
them. -/
theorem HasValue.isSize_scaled (stands : HasValue x value) {place : ℤ}
    (normal : 2 ^ (-1022 : ℤ) ≤ |value| * 2 ^ place)
    (inRange : |value| * 2 ^ place < overflowThreshold) :
    IsSize (|value| * 2 ^ place) := by
  rcases stands.cases with ⟨-, -, rfl⟩ | ⟨sign, mantissa, exponent, canonical, -, -, rfl⟩
  · rw [abs_zero, zero_mul]
    exact isSize_zero
  · rw [abs_signed canonical.size_pos.le, mul_assoc, ← two_zpow_add] at normal inRange ⊢
    exact isSize_mul canonical.small normal inRange

/-- A product that is a float is exact. -/
theorem HasValue.mul_exact (stands : HasValue x value) (otherStands : HasValue y other)
    (isBound : IsBound (value * other)) : HasValue (x * y) (value * other) := by
  obtain ⟨product, isProduct, above, below⟩ :=
    within_mul stands otherStands isBound isBound le_rfl le_rfl
  rwa [le_antisymm below above] at isProduct

end

end Photoplot.Binary64
