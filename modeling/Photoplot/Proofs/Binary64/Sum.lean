import Photoplot.Proofs.Binary64.Packing
import Photoplot.Proofs.Scalar.Order

/-! # Sums of floats

A sum is rounded to the nearest float, so a value that is not negative never makes
another one smaller when it is added, and one that is not positive never does when it
is subtracted. -/

namespace Photoplot.Binary64

open Float.Model Float.Model.UnpackedFloat

/-! ## Rounded values in order -/

/-- A float that is not above a value is not above the rounded value. -/
theorem IsRounded.le_place {value : ℚ} {float : UnpackedFloat} {mantissa : ℕ} {place : ℤ}
    (rounded : IsRounded .positive value float) (canonical : IsCanonical mantissa place)
    (ordered : mantissa * 2 ^ place ≤ value) :
    ∃ reached ∈ placeUnpacked? (limit float),
      toLex ((1 : ℤ), toLex (place, (mantissa : ℤ))) ≤ reached := by
  have beyond : ∀ (other : ℕ) (higher : ℤ) (positive : 0 < other),
      place < higher ∨ place = higher ∧ mantissa ≤ other →
        ∃ reached ∈ placeUnpacked? (limit (.finite .positive other higher positive)),
          toLex ((1 : ℤ), toLex (place, (mantissa : ℤ))) ≤ reached := by
    intro other higher positive reaches
    rw [limit]
    split
    · refine ⟨_, rfl, ?_⟩
      simp [Prod.Lex.toLex_le_toLex]
    · refine ⟨_, rfl, ?_⟩
      simp only [Prod.Lex.toLex_le_toLex]
      right
      refine ⟨trivial, ?_⟩
      rcases reaches with lower | ⟨same, fewer⟩
      · exact .inl lower
      · exact .inr ⟨same, by exact_mod_cast fewer⟩
  rcases rounded with ⟨higher, other, grid, nearest, rfl⟩
  have lower := canonical.isGrid.mono grid ordered
  have reaches : place = higher → mantissa ≤ other := by
    rintro rfl
    refine (isNearest_natCast mantissa).mono nearest ?_
    rwa [le_div_iff₀ (two_zpow_pos place)]
  have least := canonical.least
  have some : 0 < other := by
    rcases lower.lt_or_eq with strict | same
    · rcases grid.normal nearest with isLeast | normal
      · omega
      · omega
    · exact canonical.positive.trans_le (reaches same)
  unfold assemble
  rw [dif_pos some]
  split
  · apply beyond
    rcases lower.lt_or_eq with strict | same
    · exact .inl strict
    · exact .inr ⟨same, reaches same⟩
  · apply beyond
    left
    omega

/-! ## Sums -/

inductive IsNonneg : UnpackedFloat → Prop
  | zero (sign : Sign) : IsNonneg (.zero sign)
  | finite {mantissa : ℕ} {place : ℤ} (canonical : IsCanonical mantissa place)
      (inRange : place ≤ 971) :
      IsNonneg (.finite .positive mantissa place canonical.positive)
  | infinity : IsNonneg (.infinity .positive)

theorem IsNonneg.unpack_pack {float : UnpackedFloat} (nonneg : IsNonneg float) :
    (Float.Model.pack float).unpack = float := by
  cases nonneg with
  | zero sign => exact unpack_pack_zero sign
  | finite canonical inRange => exact unpack_pack_finite .positive canonical inRange
  | infinity => exact unpack_pack_infinity .positive

theorem isNonneg_unpack {x : Float} (nonneg : (0.0 : Float) ≤ x) :
    IsNonneg x.toModel.unpack := by
  have zero : place? (0.0 : Float) = some (toLex (0, toLex (0, 0))) := by decide
  rcases le_iff_place.mp nonneg with ⟨low, isLow, high, isHigh, ordered⟩
  rw [zero] at isLow
  rcases Option.some.inj isLow with rfl
  rw [place?] at isHigh
  generalize isUnpacked : x.toModel.unpack = unpacked at isHigh
  match unpacked with
  | .notANumber => cases isHigh
  | .infinity .positive => exact .infinity
  | .infinity .negative =>
      rcases Option.some.inj isHigh with rfl
      exact absurd ordered (by decide)
  | .zero sign => exact .zero sign
  | .finite .positive mantissa place positive =>
      rcases canonical_of_unpack isUnpacked with ⟨canonical, inRange⟩
      exact .finite canonical inRange
  | .finite .negative mantissa place positive =>
      rcases Option.some.inj isHigh with rfl
      simp [Prod.Lex.toLex_le_toLex] at ordered

theorem isNonneg_neg_unpack {x : Float} (nonpos : x ≤ (0.0 : Float)) :
    IsNonneg x.toModel.unpack.neg := by
  have zero : place? (0.0 : Float) = some (toLex (0, toLex (0, 0))) := by decide
  rcases le_iff_place.mp nonpos with ⟨low, isLow, high, isHigh, ordered⟩
  rw [zero] at isHigh
  rcases Option.some.inj isHigh with rfl
  rw [place?] at isLow
  generalize isUnpacked : x.toModel.unpack = unpacked at isLow
  match unpacked with
  | .notANumber => cases isLow
  | .infinity .negative => exact .infinity
  | .infinity .positive =>
      rcases Option.some.inj isLow with rfl
      exact absurd ordered (by decide)
  | .zero sign => exact .zero (-sign)
  | .finite .negative mantissa place positive =>
      rcases canonical_of_unpack isUnpacked with ⟨canonical, inRange⟩
      exact .finite canonical inRange
  | .finite .positive mantissa place positive =>
      rcases Option.some.inj isLow with rfl
      simp [Prod.Lex.toLex_le_toLex] at ordered

theorem normalize_natCast {number : ℕ} (some : number ≠ 0)
    (exponent : ℤ) (zeroSign : Sign) :
    UnpackedFloat.normalize .binary64 number exponent zeroSign =
      UnpackedFloat.round .binary64 .positive number exponent := by
  have positive : compare (number : ℤ) 0 = .gt := compare_gt_iff_gt.mpr (by omega)
  simp only [UnpackedFloat.normalize, positive, Int.toNat_natCast]

theorem sub_eq_add_neg (left right : UnpackedFloat) :
    UnpackedFloat.sub .binary64 left right =
      UnpackedFloat.add .binary64 left right.neg := by
  rcases left with sign | _ | sign | ⟨sign, mantissa, exponent, positive⟩ <;>
    rcases right with sign' | _ | sign' | ⟨sign', mantissa', exponent', positive'⟩
  case finite.finite =>
    have opposite : (-sign').apply = fun number => -sign'.apply number := by
      funext number
      cases sign' with
      | negative => exact (neg_neg number).symm
      | positive => rfl
    simp only [UnpackedFloat.sub, UnpackedFloat.add, UnpackedFloat.neg, opposite]
    rfl
  all_goals rfl

/-- A sum of two positive values, on the finer one of their grids. -/
theorem isRounded_add {mantissa mantissa' : ℕ} (place place' : ℤ)
    (positive : 0 < mantissa) (positive' : 0 < mantissa') :
    IsRounded .positive (mantissa * 2 ^ place + mantissa' * 2 ^ place')
      (UnpackedFloat.add .binary64 (.finite .positive mantissa place positive)
        (.finite .positive mantissa' place' positive')) := by
  have lowered : ∀ (mantissa : ℕ) (place low : ℤ), low ≤ place →
      ((mantissa <<< (place - low).toNat : ℕ) : ℚ) * 2 ^ low = mantissa * 2 ^ place := by
    intro mantissa place low fine
    have exponents : ((place - low).toNat : ℤ) + low = place := by omega
    rw [Nat.shiftLeft_eq]
    push_cast
    rw [mul_assoc, ← zpow_natCast, ← two_zpow_add, exponents]
  generalize isLow : min place place' = low
  have total :
      ((mantissa <<< (place - low).toNat + mantissa' <<< (place' - low).toNat : ℕ) : ℚ) *
      2 ^ low = mantissa * 2 ^ place + mantissa' * 2 ^ place' := by
    push_cast
    rw [add_mul, lowered _ _ _ (isLow ▸ min_le_left _ _),
      lowered _ _ _ (isLow ▸ min_le_right _ _)]
  have some : mantissa <<< (place - low).toNat +
      mantissa' <<< (place' - low).toNat ≠ 0 := by
    have shifted : 0 < mantissa <<< (place - low).toNat := by
      rw [Nat.shiftLeft_eq]
      positivity
    exact (Nat.add_pos_left shifted _).ne'
  have rounded := isRounded_round .positive low some
  rw [total] at rounded
  have sum : UnpackedFloat.add .binary64 (.finite .positive mantissa place positive)
      (.finite .positive mantissa' place' positive') =
        UnpackedFloat.round .binary64 .positive
          (mantissa <<< (place - low).toNat +
            mantissa' <<< (place' - low).toNat) low := by
    rw [← normalize_natCast some low .positive, Nat.cast_add]
    simp only [UnpackedFloat.add, isLow, decreaseExponent, Sign.apply]
  rw [sum]
  exact rounded

/-- Adding what is not negative reaches at least as far. -/
theorem le_place_add {left right : UnpackedFloat} (nonneg : IsNonneg left)
    (nonneg' : IsNonneg right) :
    ∃ low ∈ placeUnpacked? left,
      ∃ high ∈ placeUnpacked?
        (Float.Model.pack (UnpackedFloat.add .binary64 left right)).unpack,
        low ≤ high := by
  have unmoved : ∀ {float : UnpackedFloat}, IsNonneg float →
      ∃ high ∈ placeUnpacked? (Float.Model.pack float).unpack,
        toLex ((0 : ℤ), toLex ((0 : ℤ), (0 : ℤ))) ≤ high := by
    intro float isNonneg
    rw [isNonneg.unpack_pack]
    cases isNonneg with
    | zero sign => exact ⟨_, rfl, le_rfl⟩
    | finite canonical inRange => exact ⟨_, rfl, by simp [Prod.Lex.toLex_le_toLex]⟩
    | infinity => exact ⟨_, rfl, by decide⟩
  cases nonneg with
  | zero sign =>
      refine ⟨_, rfl, ?_⟩
      cases nonneg' with
      | zero sign' =>
          cases sign <;> cases sign' <;> exact unmoved (.zero _)
      | finite canonical inRange => exact unmoved (.finite canonical inRange)
      | infinity => exact unmoved .infinity
  | infinity =>
      refine ⟨_, rfl, _, ?_, le_rfl⟩
      have sum : UnpackedFloat.add .binary64 (.infinity .positive) right =
          .infinity .positive := by
        cases nonneg' <;> rfl
      rw [sum, unpack_pack_infinity]
      rfl
  | @finite mantissa place canonical inRange =>
      refine ⟨_, rfl, ?_⟩
      cases nonneg' with
      | zero sign =>
          refine ⟨_, ?_, le_rfl⟩
          change _ ∈ placeUnpacked?
            (Float.Model.pack
              (.finite .positive mantissa place canonical.positive)).unpack
          rw [unpack_pack_finite .positive canonical inRange]
          rfl
      | infinity =>
          change
            ∃ high ∈ placeUnpacked? (Float.Model.pack (.infinity .positive)).unpack, _
          rw [unpack_pack_infinity]
          exact ⟨_, rfl, by simp [Prod.Lex.toLex_le_toLex]⟩
      | @finite mantissa' place' canonical' inRange' =>
          have rounded :=
              isRounded_add place place' canonical.positive canonical'.positive
          rw [rounded.unpack_pack]
          apply rounded.le_place canonical
          have extra : (0 : ℚ) ≤ mantissa' * 2 ^ place' :=
            mul_nonneg (Nat.cast_nonneg _) (two_zpow_pos place').le
          linarith

theorem le_add_of_nonneg {left right : Float} (nonneg : (0.0 : Float) ≤ left)
    (nonneg' : (0.0 : Float) ≤ right) : left ≤ left + right := by
  rcases le_place_add (isNonneg_unpack nonneg) (isNonneg_unpack nonneg') with
    ⟨low, isLow, high, isHigh, ordered⟩
  exact le_iff_place.mpr ⟨low, isLow, high, isHigh, ordered⟩

theorem le_sub_of_nonpos {left right : Float} (nonneg : (0.0 : Float) ≤ left)
    (nonpos : right ≤ (0.0 : Float)) : left ≤ left - right := by
  rcases le_place_add (isNonneg_unpack nonneg) (isNonneg_neg_unpack nonpos) with
    ⟨low, isLow, high, isHigh, ordered⟩
  rw [← sub_eq_add_neg] at isHigh
  exact le_iff_place.mpr ⟨low, isLow, high, isHigh, ordered⟩

theorem not_lt_of_le {left right : Float} (ordered : right ≤ left) : ¬left < right := by
  intro less
  rcases le_iff_place.mp ordered with ⟨low, isLow, high, isHigh, below⟩
  rcases lt_iff_place.mp less with ⟨same, isSame, same', isSame', above⟩
  rcases Option.mem_unique isSame isHigh with rfl
  rcases Option.mem_unique isSame' isLow with rfl
  exact absurd above (not_lt.mpr below)

theorem le_self_iff {x : Float} : x ≤ x ↔ x.toModel.unpack ≠ .notANumber := by
  rw [le_iff_place, place?]
  rcases x.toModel.unpack with (_ | _) | _ | _ | ⟨_ | _, mantissa, place, positive⟩ <;>
    simp [placeUnpacked?]

/-- A sum is a number only if both parts are. -/
theorem comparable_of_add {left right : Float}
    (comparable : left + right ≤ left + right) :
    left ≤ left ∧ right ≤ right := by
  have undefined : (Float.Model.pack .notANumber).unpack = .notANumber := rfl
  rw [le_self_iff, unpack_add] at comparable
  rw [le_self_iff, le_self_iff]
  constructor
  · intro isUndefined
    apply comparable
    rw [isUndefined]
    exact undefined
  · intro isUndefined
    apply comparable
    rw [isUndefined]
    cases left.toModel.unpack <;> exact undefined

end Photoplot.Binary64
