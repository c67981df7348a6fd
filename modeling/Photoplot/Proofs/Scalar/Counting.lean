import Photoplot.Proofs.Binary64.RoundTrip
import Photoplot.Proofs.Scalar.Order

/-! # Counting with scalars

A number that is written as a scalar is counted without loss: a value between the
least and the greatest number of corners stays there when it becomes a natural
number. -/

namespace Photoplot

class Scalar.Counting (K : Type) [Scalar K] : Prop where
  isFinite_zero : Scalar.isFinite (0.0 : K) = true
  ceilNat_between {value : K} : 3.0 ≤ value → value ≤ 12.0 →
    3 ≤ Scalar.ceilNat value ∧ Scalar.ceilNat value ≤ 12

noncomputable instance : Scalar.Counting ℝ where
  isFinite_zero := rfl
  ceilNat_between {value} few many := by
    norm_num at few many
    refine ⟨?_, Nat.ceil_le.mpr (by exact_mod_cast many)⟩
    exact_mod_cast few.trans (Nat.le_ceil value)

namespace Binary64

open Float.Model (UnpackedFloat)

theorem place_three : place? 3.0 = some (toLex (1, toLex (-51, 3 * 2 ^ 51))) := by
  decide

theorem place_twelve : place? 12.0 = some (toLex (1, toLex (-49, 3 * 2 ^ 51))) := by
  decide

theorem ceilNat_of_unpack {x : Float} {mantissa power : ℕ} {positive : 0 < mantissa}
    (unpacked : x.toModel.unpack = .finite .positive mantissa (.negSucc power) positive) :
    ceilNat x = (mantissa + (2 ^ (power + 1) - 1)) / 2 ^ (power + 1) := by
  rw [ceilNat, ofFloat_eq, unpacked]
  change Binary.ceiling ⟨false, mantissa, .negSucc power⟩ = _
  simp [Binary.ceiling, Nat.shiftRight_eq_div_pow, Nat.shiftLeft_eq]

/-- From three to twelve there are three binades. -/
theorem ceilNat_between {x : Float} (few : 3.0 ≤ x) (many : x ≤ 12.0) :
    3 ≤ ceilNat x ∧ ceilNat x ≤ 12 := by
  rcases le_iff_place.mp few with ⟨low, isLow, place, isPlace, above⟩
  rcases le_iff_place.mp many with ⟨same, isSame, high, isHigh, below⟩
  rcases Option.mem_unique isSame isPlace with rfl
  rcases Option.some.inj (place_three.symm.trans isLow) with rfl
  rcases Option.some.inj (place_twelve.symm.trans isHigh) with rfl
  unfold place? at isPlace
  rcases unpacked : x.toModel.unpack with
      (_ | _) | _ | _ | ⟨_ | _, mantissa, exponent, positive⟩ <;>
    rw [unpacked] at isPlace
  case finite.positive =>
    rcases Option.some.inj isPlace with rfl
    rcases canonical_of_unpack unpacked with ⟨canonical, -⟩
    have small := canonical.small
    have normal := canonical.normal
    simp only [Prod.Lex.toLex_le_toLex, lt_self_iff_false, true_and,
      false_or] at above below
    have binade : exponent = -51 ∨ exponent = -50 ∨ exponent = -49 := by omega
    rcases binade with rfl | rfl | rfl
    · rw [@ceilNat_of_unpack x mantissa 50 positive unpacked]
      omega
    · rw [@ceilNat_of_unpack x mantissa 49 positive unpacked]
      omega
    · rw [@ceilNat_of_unpack x mantissa 48 positive unpacked]
      omega
  case notANumber => exact nomatch isPlace
  -- zeros, infinities and negative values stand outside
  all_goals
    rcases Option.some.inj isPlace with rfl
    simp [Prod.Lex.toLex_le_toLex] at above below

end Binary64

instance : Scalar.Counting Float where
  isFinite_zero := by decide
  ceilNat_between := Binary64.ceilNat_between

end Photoplot
