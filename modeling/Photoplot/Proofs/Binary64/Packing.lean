import Photoplot.Proofs.Binary64.Rounding

/-! # Packed floats

A float keeps its sign, its exponent and its mantissa in the fields of 64 bits. What
is rounded can be packed and unpacked again without a loss, unless it lies beyond the
greatest float and becomes an infinity. -/

namespace Photoplot.Binary64

open Float.Model Float.Model.UnpackedFloat

/-- The mantissa has all of its bits, unless the exponent is the least one. -/
structure IsCanonical (mantissa : ℕ) (place : ℤ) : Prop where
  positive : 0 < mantissa
  small : mantissa < 2 ^ 53
  least : -1074 ≤ place
  normal : place = -1074 ∨ 2 ^ 52 ≤ mantissa

/-! ## Fields -/

@[simp] theorem unpackSign_packComponents (sign : Sign) (exponent : BitVec 11)
    (mantissa : BitVec 52) :
    unpackSign (packComponents .binary64 sign exponent mantissa) = sign.toBitVec := by
  simp only [unpackSign, packComponents, BitVec.extractLsb]
  rw [BitVec.extractLsb'_append_eq_of_le (by omega),
    BitVec.extractLsb'_append_eq_of_le (by omega)]
  cases sign <;> rfl

@[simp] theorem ofBitVec_toBitVec (sign : Sign) : Sign.ofBitVec sign.toBitVec = sign := by
  cases sign <;> rfl

@[simp] theorem toBitVec_ofBitVec (bit : BitVec 1) :
    (Sign.ofBitVec bit).toBitVec = bit := by
  revert bit
  decide

def ofFields (sign : Sign) (exponent : BitVec 11) (mantissa : BitVec 52) :
    UnpackedFloat :=
  UnpackedFloat.unpack .binary64 (packComponents .binary64 sign exponent mantissa)

theorem ofFields_infinity (sign : Sign) :
    ofFields sign (-1#11) 0#52 = .infinity sign := by
  simp [ofFields, UnpackedFloat.unpack]

theorem ofFields_zero (sign : Sign) : ofFields sign 0#11 0#52 = .zero sign := by
  simp [ofFields, UnpackedFloat.unpack]

theorem ofFields_subnormal (sign : Sign) {mantissa : ℕ} (positive : 0 < mantissa)
    (small : mantissa < 2 ^ 52) :
    ofFields sign 0#11 (BitVec.ofNat 52 mantissa) =
      .finite sign mantissa (-1074) positive := by
  have kept : (BitVec.ofNat 52 mantissa).toNat = mantissa := by
    rw [BitVec.toNat_ofNat, Nat.mod_eq_of_lt small]
  have some : BitVec.ofNat 52 mantissa ≠ 0#52 := by
    intro none
    rw [none] at kept
    exact positive.ne kept
  simp only [ofFields, UnpackedFloat.unpack, unpackMantissa_packComponents,
    unpackExponent_packComponents, unpackSign_packComponents, ofBitVec_toBitVec, some,
    kept]
  rfl

theorem ofFields_normal (sign : Sign) {field mantissa : ℕ} (first : 0 < field)
    (last : field < 2047) (normal : 2 ^ 52 ≤ mantissa) (small : mantissa < 2 ^ 53) :
    ofFields sign (BitVec.ofNat 11 field) (BitVec.ofNat 52 mantissa) =
      .finite sign mantissa (field - 1075) (by omega) := by
  have kept : (BitVec.ofNat 11 field).toNat = field := by
    rw [BitVec.toNat_ofNat, Nat.mod_eq_of_lt (by omega)]
  have notZero : BitVec.ofNat 11 field ≠ 0#11 := by
    intro zero
    rw [zero] at kept
    exact first.ne kept
  have notOnes : BitVec.ofNat 11 field ≠ -1#11 := by
    intro ones
    rw [ones] at kept
    exact last.ne' kept
  have implicit : (1#1 ++ BitVec.ofNat 52 mantissa).toNat = mantissa := by
    rw [BitVec.toNat_append, ← Nat.shiftLeft_add_eq_or_of_lt (BitVec.isLt _),
      BitVec.toNat_ofNat, BitVec.toNat_ofNat, Nat.shiftLeft_eq]
    omega
  simp only [ofFields, UnpackedFloat.unpack, unpackMantissa_packComponents,
    unpackExponent_packComponents, unpackSign_packComponents, ofBitVec_toBitVec, notZero,
    notOnes, if_false, kept, implicit]
  congr 1

/-! ## Packing -/

theorem unpack_pack_infinity (sign : Sign) :
    (Float.Model.pack (.infinity sign)).unpack = .infinity sign := ofFields_infinity sign

theorem unpack_pack_zero (sign : Sign) :
    (Float.Model.pack (.zero sign)).unpack = .zero sign := ofFields_zero sign

theorem pack_finite (sign : Sign) {mantissa : ℕ} {place : ℤ} (positive : 0 < mantissa)
    (inRange : place ≤ 971) :
    UnpackedFloat.pack .binary64 (.finite sign mantissa place positive) =
      if mantissa.log2 = 52 then
        packComponents .binary64 sign (BitVec.ofNat 11 (place + 1075).toNat)
          (BitVec.ofNat 52 mantissa)
      else packComponents .binary64 sign 0#11 (BitVec.ofNat 52 mantissa) := by
  have field : (place + (Format.binary64.exponentBias : ℕ) + (52 : ℕ)).toNat =
      (place + 1075).toNat := by
    simp only [Format.exponentBias]
    omega
  have fits : ¬2 ^ 11 ≤ (place + 1075).toNat + 1 := by omega
  have bits : mantissa.log2 + 1 = Format.binary64.mantissaBits ↔ mantissa.log2 = 52 := by
    simp only [Format.mantissaBits]
    omega
  simp only [UnpackedFloat.pack, field, fits, if_false, bits]

theorem unpack_pack_finite (sign : Sign) {mantissa : ℕ} {place : ℤ}
    (canonical : IsCanonical mantissa place) (inRange : place ≤ 971) :
    (Float.Model.pack (.finite sign mantissa place canonical.positive)).unpack =
      .finite sign mantissa place canonical.positive := by
  have packed :
      (Float.Model.pack (.finite sign mantissa place canonical.positive)).unpack =
      UnpackedFloat.unpack .binary64
        (UnpackedFloat.pack .binary64 (.finite sign mantissa place canonical.positive)) :=
          rfl
  have least := canonical.least
  rw [packed, pack_finite sign canonical.positive inRange]
  by_cases normal : 2 ^ 52 ≤ mantissa
  · have bits : mantissa.log2 = 52 :=
      (Nat.log2_eq_iff canonical.positive.ne').mpr ⟨normal, canonical.small⟩
    rw [if_pos bits]
    refine (ofFields_normal sign (by omega) (by omega) normal canonical.small).trans ?_
    congr 1
    omega
  · have bits : mantissa.log2 < 52 :=
        (Nat.log2_lt canonical.positive.ne').mpr (not_le.mp normal)
    have isLeast : place = -1074 := canonical.normal.resolve_right normal
    rw [if_neg bits.ne]
    refine (ofFields_subnormal sign canonical.positive (not_le.mp normal)).trans ?_
    congr 1
    exact isLeast.symm

theorem unpack_pack_overflow (sign : Sign) {mantissa : ℕ} {place : ℤ}
    (positive : 0 < mantissa) (outOfRange : 971 < place) :
    (Float.Model.pack (.finite sign mantissa place positive)).unpack =
      .infinity sign := by
  have field : (place + (Format.binary64.exponentBias : ℕ) + (52 : ℕ)).toNat =
      (place + 1075).toNat := by
    simp only [Format.exponentBias]
    omega
  have exceeds : 2 ^ 11 ≤ (place + 1075).toNat + 1 := by omega
  have packed : UnpackedFloat.pack .binary64 (.finite sign mantissa place positive) =
      packedInfinity .binary64 sign := by
    simp only [UnpackedFloat.pack, field, exceeds, if_true]
  have unpacked : (Float.Model.pack (.finite sign mantissa place positive)).unpack =
      UnpackedFloat.unpack .binary64
        (UnpackedFloat.pack .binary64 (.finite sign mantissa place positive)) := rfl
  rw [unpacked, packed]
  exact ofFields_infinity sign

/-! ## Unpacking -/

/-- The bits of a float are those of its three fields. -/
theorem exists_fields (float : Float.Model) :
    ∃ (sign : Sign) (field fraction : ℕ), field < 2 ^ 11 ∧ fraction < 2 ^ 52 ∧
      float.toBits.toBitVec =
        packComponents .binary64 sign (BitVec.ofNat 11 field)
          (BitVec.ofNat 52 fraction) := by
  generalize float.toBits.toBitVec = bits
  refine ⟨Sign.ofBitVec (@unpackSign .binary64 bits),
    (@unpackExponent .binary64 bits).toNat,
    (@unpackMantissa .binary64 bits).toNat, BitVec.isLt _, BitVec.isLt _, ?_⟩
  have field : BitVec.ofNat 11 (@unpackExponent .binary64 bits).toNat =
      @unpackExponent .binary64 bits := BitVec.ofNat_toNat _ _ |>.trans (by simp)
  have fraction : BitVec.ofNat 52 (@unpackMantissa .binary64 bits).toNat =
      @unpackMantissa .binary64 bits := BitVec.ofNat_toNat _ _ |>.trans (by simp)
  rw [field, fraction]
  simp only [packComponents, toBitVec_ofBitVec, unpackSign, unpackExponent,
    unpackMantissa, BitVec.extractLsb]
  ext index inside
  grind

inductive Unpacks (sign : Sign) : (field fraction : ℕ) → UnpackedFloat → Prop
  | infinity : Unpacks sign 2047 0 (.infinity sign)
  | notANumber {fraction : ℕ}
      (some : 0 < fraction) : Unpacks sign 2047 fraction .notANumber
  | zero : Unpacks sign 0 0 (.zero sign)
  | subnormal {fraction : ℕ} (some : 0 < fraction) :
      Unpacks sign 0 fraction (.finite sign fraction (-1074) some)
  | normal {field fraction : ℕ} (first : 0 < field) (last : field < 2047) :
      Unpacks sign field fraction
        (.finite sign (fraction + 2 ^ 52) (field - 1075) (by omega))

theorem unpacks_ofFields (sign : Sign) {field fraction : ℕ} (fieldSmall : field < 2 ^ 11)
    (fractionSmall : fraction < 2 ^ 52) :
    Unpacks sign field fraction
      (ofFields sign (BitVec.ofNat 11 field) (BitVec.ofNat 52 fraction)) := by
  by_cases isLast : field = 2047
  · rw [isLast]
    rcases Nat.eq_zero_or_pos fraction with none | some
    · rw [none]
      exact (ofFields_infinity sign) ▸ .infinity
    · have other : BitVec.ofNat 52 fraction ≠ 0#52 := by
        intro zero
        have value := congrArg BitVec.toNat zero
        rw [BitVec.toNat_ofNat, Nat.mod_eq_of_lt fractionSmall] at value
        exact some.ne' value
      have notANumber : ofFields sign (BitVec.ofNat 11 2047) (BitVec.ofNat 52 fraction) =
          .notANumber := by
        simp [ofFields, UnpackedFloat.unpack, other]
      rw [notANumber]
      exact .notANumber some
  · by_cases isFirst : field = 0
    · rw [isFirst]
      rcases Nat.eq_zero_or_pos fraction with none | some
      · rw [none]
        exact (ofFields_zero sign) ▸ .zero
      · rw [ofFields_subnormal sign some fractionSmall]
        exact .subnormal some
    · have same : BitVec.ofNat 52 fraction = BitVec.ofNat 52 (fraction + 2 ^ 52) := by
        apply BitVec.eq_of_toNat_eq
        simp
      rw [same, ofFields_normal sign (by omega) (by omega) (by omega) (by omega)]
      exact .normal (by omega) (by omega)

theorem exists_unpacks (float : Float.Model) :
    ∃ (sign : Sign) (field fraction : ℕ), field < 2 ^ 11 ∧ fraction < 2 ^ 52 ∧
      float.toBits.toBitVec =
        packComponents .binary64 sign (BitVec.ofNat 11 field) (BitVec.ofNat 52 fraction) ∧
      Unpacks sign field fraction float.unpack := by
  rcases exists_fields float with ⟨sign, field, fraction, fieldSmall, fractionSmall, bits⟩
  refine ⟨sign, field, fraction, fieldSmall, fractionSmall, bits, ?_⟩
  rw [Float.Model.unpack, bits]
  exact unpacks_ofFields sign fieldSmall fractionSmall

/-- What a float unpacks to, if it is neither zero nor special. -/
theorem canonical_of_unpack {float : Float.Model} {sign : Sign} {mantissa : ℕ} {place : ℤ}
    {positive : 0 < mantissa}
    (unpacked : float.unpack = .finite sign mantissa place positive) :
    IsCanonical mantissa place ∧ place ≤ 971 := by
  rcases exists_unpacks float with
      ⟨_, field, fraction, fieldSmall, fractionSmall, -, unpacks⟩
  rw [unpacked] at unpacks
  cases unpacks with
  | subnormal some => exact ⟨⟨some, by omega, le_rfl, .inl rfl⟩, by omega⟩
  | normal first last => exact ⟨⟨positive, by omega, by omega, .inr (by omega)⟩, by omega⟩

theorem pack_unpack (float : Float.Model) : Float.Model.pack float.unpack = float := by
  rcases exists_unpacks float with
    ⟨sign, field, fraction, fieldSmall, fractionSmall, bits, unpacks⟩
  have same : UnpackedFloat.pack .binary64 float.unpack = float.toBits.toBitVec := by
    rw [bits]
    generalize isUnpacked : float.unpack = unpacked at unpacks
    cases unpacks with
    | infinity => rfl
    | zero => rfl
    | notANumber some =>
        have valid := float.valid.eq_packedNaN
        rw [bits, unpackExponent_packComponents, unpackMantissa_packComponents] at valid
        refine (valid rfl ?_).symm
        intro zero
        have value := congrArg BitVec.toNat zero
        rw [BitVec.toNat_ofNat, Nat.mod_eq_of_lt fractionSmall] at value
        exact some.ne' value
    | subnormal some =>
        have short : fraction.log2 < 52 := (Nat.log2_lt some.ne').mpr fractionSmall
        rw [pack_finite sign some (by omega), if_neg short.ne]
    | normal first last =>
        have bits : (fraction + 2 ^ 52).log2 = 52 :=
          (Nat.log2_eq_iff (by omega)).mpr ⟨by omega, by omega⟩
        have isField : ((field : ℤ) - 1075 + 1075).toNat = field := by omega
        have isFraction : BitVec.ofNat 52 (fraction + 2 ^ 52) =
            BitVec.ofNat 52 fraction := by
          apply BitVec.eq_of_toNat_eq
          simp
        rw [pack_finite sign _ (by omega), if_pos bits, isField, isFraction]
  simp only [Float.Model.pack, same]

/-- Floats that unpack to the same are the same. -/
theorem unpack_injective {float other : Float.Model}
    (same : float.unpack = other.unpack) :
    float = other := by
  rw [← pack_unpack float, same, pack_unpack]

/-! ## Rounded floats -/

theorem IsCanonical.isGrid {mantissa : ℕ} {place : ℤ}
    (canonical : IsCanonical mantissa place) :
    IsGrid (mantissa * 2 ^ place) place := by
  rw [isGrid_iff, mul_div_cancel_right₀ _ (two_zpow_pos place).ne', Nat.cast_lt,
    Nat.cast_le]
  exact ⟨canonical.least, canonical.small, canonical.normal⟩

/-- What is nearest on the grid of a value has enough bits. -/
theorem IsGrid.normal {value : ℚ} {place : ℤ} (grid : IsGrid value place) {mantissa : ℕ}
    (nearest : IsNearest (value / 2 ^ place) mantissa) :
    place = -1074 ∨ 2 ^ 52 ≤ mantissa := by
  rcases (isGrid_iff.mp grid).2.2 with least | above
  · exact .inl least
  · exact .inr ((isNearest_natCast _).mono nearest above)

theorem IsGrid.isCanonical {value : ℚ} {place : ℤ} (grid : IsGrid value place)
    {mantissa : ℕ}
    (nearest : IsNearest (value / 2 ^ place) mantissa) (positive : 0 < mantissa)
    (small : mantissa < 2 ^ 53) : IsCanonical mantissa place :=
  ⟨positive, small, grid.least, grid.normal nearest⟩

def limit : UnpackedFloat → UnpackedFloat
  | .finite sign mantissa place positive =>
      if 971 < place then .infinity sign else .finite sign mantissa place positive
  | float => float

theorem IsRounded.unpack_pack {sign : Sign} {value : ℚ} {float : UnpackedFloat}
    (rounded : IsRounded sign value float) :
    (Float.Model.pack float).unpack = limit float := by
  have finite : ∀ (mantissa : ℕ) (place : ℤ) (canonical : IsCanonical mantissa place),
      (Float.Model.pack (.finite sign mantissa place canonical.positive)).unpack =
        limit (.finite sign mantissa place canonical.positive) := by
    intro mantissa place canonical
    rw [limit]
    split
    · rename_i outOfRange
      exact unpack_pack_overflow sign canonical.positive outOfRange
    · rename_i inRange
      exact unpack_pack_finite sign canonical (not_lt.mp inRange)
  rcases rounded with ⟨place, mantissa, grid, nearest, rfl⟩
  unfold assemble
  split
  · rename_i positive
    split
    · rename_i small
      exact finite mantissa place (grid.isCanonical nearest positive small)
    · have least := grid.least
      exact finite (2 ^ 52) (place + 1) ⟨by decide, by decide, by omega, .inr le_rfl⟩
  · exact unpack_pack_zero sign

/-! ## Operations

Arithmetic unpacks, computes and packs again. -/

theorem unpack_neg (x : Float) :
    (-x).toModel.unpack = (Float.Model.pack x.toModel.unpack.neg).unpack := rfl

theorem unpack_add (left right : Float) :
    (left + right).toModel.unpack = (Float.Model.pack
      (UnpackedFloat.add .binary64 left.toModel.unpack right.toModel.unpack)).unpack :=
        rfl

theorem unpack_sub (left right : Float) :
    (left - right).toModel.unpack = (Float.Model.pack
      (UnpackedFloat.sub .binary64 left.toModel.unpack right.toModel.unpack)).unpack :=
        rfl

theorem unpack_mul (left right : Float) :
    (left * right).toModel.unpack = (Float.Model.pack
      (UnpackedFloat.mul .binary64 left.toModel.unpack right.toModel.unpack)).unpack :=
        rfl

theorem unpack_div (left right : Float) :
    (left / right).toModel.unpack = (Float.Model.pack
      (UnpackedFloat.div .binary64 left.toModel.unpack right.toModel.unpack)).unpack :=
        rfl

end Photoplot.Binary64
