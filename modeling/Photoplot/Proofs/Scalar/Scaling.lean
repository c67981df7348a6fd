import Photoplot.Proofs.Binary64.Range
import Photoplot.Proofs.Scalar.Order
import Photoplot.Source.Coordinate

/-! # Lengths in millimetres

A length that becomes millimetres keeps its sign. The factor is one at least, so that not
even the least float can vanish. -/

namespace Photoplot

class Scalar.Scaling (K : Type) [Scalar K] : Prop where
  comparable_scaled {length : K} (units : Units) : Scalar.isFinite length = true →
    length * units.scale ≤ length * units.scale
  nonneg_scaled {length : K} (units : Units) : Scalar.isFinite length = true →
    (0.0 ≤ length * units.scale ↔ 0.0 ≤ length)
  nonneg_tenth : (0.0 : K) ≤ 0.1

noncomputable instance : Scalar.Scaling ℝ where
  comparable_scaled _ _ := le_rfl
  nonneg_scaled {length} units _ := by
    have positive : (0 : ℝ) < units.scale := by cases units <;> norm_num [Units.scale]
    rw [Exact.zero_eq]
    exact mul_nonneg_iff_of_pos_right positive
  nonneg_tenth := by norm_num

namespace Binary64

open Float.Model Float.Model.UnpackedFloat

def IsFactor : UnpackedFloat → Prop
  | .finite sign mantissa place _ => sign == .positive ∧ 2 ^ 52 ≤ mantissa ∧ -52 ≤ place
  | _ => False

instance (float : UnpackedFloat) : Decidable (IsFactor float) := by
  unfold IsFactor
  split <;> infer_instance

theorem isFactor_scale (units : Units) :
    IsFactor (units.scale : Float).toModel.unpack := by
  cases units <;> decide

theorem IsFactor.exists_finite {float : UnpackedFloat} (factor : IsFactor float) :
    ∃ (mantissa : ℕ) (place : ℤ) (positive : 0 < mantissa),
      float = .finite .positive mantissa place positive ∧ 2 ^ 52 ≤ mantissa ∧
        (1 : ℚ) ≤ mantissa * 2 ^ place := by
  match float with
  | .finite .positive mantissa place positive =>
      obtain ⟨-, full, least⟩ := factor
      refine ⟨mantissa, place, positive, rfl, full, ?_⟩
      have whole : (2 : ℚ) ^ (52 : ℤ) ≤ mantissa := by exact_mod_cast full
      have unit : (1 : ℚ) = 2 ^ (52 : ℤ) * 2 ^ (-52 : ℤ) := by norm_num
      rw [unit]
      exact mul_le_mul whole (two_zpow_le.mpr least) (two_zpow_pos _).le
        (Nat.cast_nonneg _)

/-- What is not below the least float does not vanish when it is rounded. -/
theorem IsRounded.exists_finite {sign : Sign} {value : ℚ} {float : UnpackedFloat}
    (rounded : IsRounded sign value float) (least : 2 ^ (-1074 : ℤ) ≤ value) :
    ∃ (mantissa : ℕ) (place : ℤ) (positive : 0 < mantissa),
      float = .finite sign mantissa place positive := by
  obtain ⟨place, mantissa, grid, nearest, rfl⟩ := rounded
  have long : ((1 : ℕ) : ℚ) ≤ value / 2 ^ place := by
    rcases (isGrid_iff.mp grid).2.2 with isLeast | normal
    · rw [isLeast, le_div_iff₀ (two_zpow_pos _), Nat.cast_one, one_mul]
      exact least
    · exact le_trans (by norm_num) normal
  have some : 0 < mantissa := (isNearest_natCast 1).mono nearest long
  unfold assemble
  rw [dif_pos some]
  split
  · exact ⟨mantissa, place, some, rfl⟩
  · exact ⟨2 ^ 52, place + 1, by decide, rfl⟩

theorem nonneg_iff_of_unpack {x : Float} {sign : Sign} {mantissa : ℕ} {place : ℤ}
    {positive : 0 < mantissa}
    (unpacked : x.toModel.unpack = limit (.finite sign mantissa place positive)) :
    (0.0 : Float) ≤ x ↔ sign = .positive := by
  have zero : place? (0.0 : Float) = some (toLex (0, toLex (0, 0))) := by decide
  rw [le_iff_place, zero, place?, unpacked, limit]
  split <;> cases sign <;> simp [placeUnpacked?, Prod.Lex.toLex_le_toLex]

/-- Scaled up, a float keeps its sign. -/
theorem exists_unpack_mul {x factor : Float} {sign : Sign} {mantissa : ℕ} {place : ℤ}
    {positive : 0 < mantissa}
    (unpacked : x.toModel.unpack = .finite sign mantissa place positive)
    (isFactor : IsFactor factor.toModel.unpack) :
    ∃ (mantissa : ℕ) (place : ℤ) (positive : 0 < mantissa),
      (x * factor).toModel.unpack = limit (.finite sign mantissa place positive) := by
  obtain ⟨mantissa', place', positive', unpacked', full, atLeastOne⟩ :=
      isFactor.exists_finite
  have canonical := (canonical_of_unpack unpacked).1
  have rounded := isRounded_mul sign .positive place place' positive positive'
    (.inl (full.trans (Nat.le_mul_of_pos_left _ positive)))
  have same : sign * .positive = sign := by cases sign <;> rfl
  have least : (2 : ℚ) ^ (-1074 : ℤ) ≤
      (mantissa * mantissa' : ℕ) * 2 ^ (place + place') := by
    have some : (1 : ℚ) ≤ mantissa := by exact_mod_cast positive
    calc (2 : ℚ) ^ (-1074 : ℤ)
        ≤ 2 ^ place := two_zpow_le.mpr canonical.least
      _ ≤ mantissa * 2 ^ place := le_mul_of_one_le_left (two_zpow_pos place).le some
      _ ≤ mantissa * 2 ^ place * (mantissa' * 2 ^ place') :=
          le_mul_of_one_le_right (by positivity) atLeastOne
      _ = (mantissa * mantissa' : ℕ) * 2 ^ (place + place') := by
          rw [two_zpow_add]
          push_cast
          ring
  rw [same] at rounded
  obtain ⟨mantissa'', place'', positive'', isFinite⟩ := rounded.exists_finite least
  refine ⟨mantissa'', place'', positive'', ?_⟩
  rw [unpack_mul, unpacked, unpacked', rounded.unpack_pack, isFinite]

theorem nonneg_mul_iff {x factor : Float} (finite : x.isFinite = true)
    (isFactor : IsFactor factor.toModel.unpack) :
    (0.0 : Float) ≤ x * factor ↔ (0.0 : Float) ≤ x := by
  have finite : x.toModel.unpack.isFinite = true := finite
  cases unpacked : x.toModel.unpack with
  | notANumber =>
      rw [unpacked] at finite
      cases finite
  | infinity sign =>
      rw [unpacked] at finite
      cases finite
  | zero sign =>
      obtain ⟨mantissa', place', positive', unpacked', -⟩ := isFactor.exists_finite
      have zero : place? (0.0 : Float) = some (toLex (0, toLex (0, 0))) := by decide
      have product : (x * factor).toModel.unpack = .zero (sign * .positive) := by
        rw [unpack_mul, unpacked, unpacked']
        exact unpack_pack_zero _
      rw [le_iff_place, le_iff_place, zero, place?, place?, product, unpacked]
      simp [placeUnpacked?]
  | finite sign mantissa place positive =>
      have inRange := (canonical_of_unpack unpacked).2
      obtain ⟨mantissa', place', positive', product⟩ :=
          exists_unpack_mul unpacked isFactor
      rw [nonneg_iff_of_unpack product,
        nonneg_iff_of_unpack (unpacked.trans (limit_of_le inRange).symm)]

end Binary64

instance : Scalar.Scaling Float where
  comparable_scaled units finite := by
    obtain ⟨mantissa, place, positive, isFinite, -⟩ :=
      (Binary64.isFactor_scale units).exists_finite
    exact Binary64.comparable_mul (Binary64.comparable_of_isFinite finite) isFinite
  nonneg_scaled units finite :=
    Binary64.nonneg_mul_iff finite (Binary64.isFactor_scale units)
  nonneg_tenth := by decide

end Photoplot
