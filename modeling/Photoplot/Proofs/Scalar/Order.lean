import Photoplot.Proofs.Scalar.Exact
import Photoplot.Scalar.Binary64

/-! # The order of scalars

The laws that boxes rely on. They have to leave room for values that are not
comparable, not even with themselves: two values are in order one way or the
other only if both of them are comparable. Floats and real numbers follow the
laws. -/

namespace Photoplot

class Scalar.Ordered (K : Type) [Scalar K] : Prop where
  le_trans {low middle high : K} : low ≤ middle → middle ≤ high → low ≤ high
  le_of_lt {low high : K} : low < high → low ≤ high
  le_of_not_lt {low high : K} : low ≤ low → high ≤ high → ¬low < high → high ≤ low
  comparable_left {low high : K} : low ≤ high → low ≤ low
  comparable_right {low high : K} : low ≤ high → high ≤ high

instance : Scalar.Ordered ℝ where
  le_trans := le_trans
  le_of_lt := le_of_lt
  le_of_not_lt _ _ notLess := not_lt.mp notLess
  comparable_left _ := le_refl _
  comparable_right _ := le_refl _

/-! ## Lesser and greater values -/

namespace Scalar

variable {K : Type} [Scalar K] [Ordered K] {left right value : K}

theorem lesser_le_left (comparable : left ≤ left) : lesser left right ≤ left := by
  unfold lesser
  rw [if_pos comparable]
  split
  · rename_i less
    exact Ordered.le_of_lt less
  · exact comparable

theorem lesser_le_right (comparable : right ≤ right) : lesser left right ≤ right := by
  unfold lesser
  split
  · rename_i leftComparable
    split
    · exact comparable
    · rename_i notLess
      exact Ordered.le_of_not_lt comparable leftComparable notLess
  · exact comparable

theorem left_le_greater (comparable : left ≤ left) : left ≤ greater left right := by
  unfold greater
  rw [if_pos comparable]
  split
  · rename_i less
    exact Ordered.le_of_lt less
  · exact comparable

theorem right_le_greater (comparable : right ≤ right) : right ≤ greater left right := by
  unfold greater
  split
  · rename_i leftComparable
    split
    · exact comparable
    · rename_i notLess
      exact Ordered.le_of_not_lt leftComparable comparable notLess
  · exact comparable

/-- Real numbers are all comparable. -/
theorem greater_eq_max (left right : ℝ) : greater left right = max left right := by
  unfold greater
  rw [if_pos le_rfl]
  split
  · rename_i less
    rw [max_eq_right less.le]
  · rename_i notLess
    rw [max_eq_left (not_lt.mp notLess)]

end Scalar

/-! ## Floats

A float that is a number has a place among the triples of integers in
lexicographic order: first its sign and whether it is infinite, then its
exponent, then its mantissa. -/

namespace Binary64

open Float.Model (UnpackedFloat)

def placeUnpacked? : UnpackedFloat → Option (ℤ ×ₗ ℤ ×ₗ ℤ)
  | .notANumber => none
  | .infinity .negative => some (toLex (-2, toLex (0, 0)))
  | .finite .negative mantissa exponent _ =>
      some (toLex (-1, toLex (-exponent, -mantissa)))
  | .zero _ => some (toLex (0, toLex (0, 0)))
  | .finite .positive mantissa exponent _ => some (toLex (1, toLex (exponent, mantissa)))
  | .infinity .positive => some (toLex (2, toLex (0, 0)))

/-- Where a float stands; a value that is no number stands nowhere. -/
def place? (x : Float) : Option (ℤ ×ₗ ℤ ×ₗ ℤ) := placeUnpacked? x.toModel.unpack

theorem compare_lex (sign sign' exponent exponent' mantissa mantissa' : ℤ) :
    compare (toLex (sign, toLex (exponent, mantissa)))
        (toLex (sign', toLex (exponent', mantissa'))) =
      (compare sign sign').then
        ((compare exponent exponent').then (compare mantissa mantissa')) := rfl

theorem compare_neg (left right : ℤ) :
    compare (-left) (-right) = (compare left right).swap := by
  rw [Int.compare_swap]
  rcases lt_trichotomy left right with less | rfl | more
  · rw [compare_gt_iff_gt.mpr less, compare_gt_iff_gt.mpr (neg_lt_neg less)]
  · simp
  · rw [compare_lt_iff_lt.mpr more, compare_lt_iff_lt.mpr (neg_lt_neg more)]

theorem compare_cast (left right : ℕ) :
    compare (left : ℤ) right = compare left right := by
  rcases lt_trichotomy left right with less | rfl | more
  · rw [compare_lt_iff_lt.mpr less, compare_lt_iff_lt.mpr (Int.ofNat_lt.mpr less)]
  · simp
  · rw [compare_gt_iff_gt.mpr more, compare_gt_iff_gt.mpr (Int.ofNat_lt.mpr more)]

/-- Floats compare as their places do. Only two values of the same sign have more
than their first component to compare. -/
theorem compare_unpacked (left right : UnpackedFloat) :
    left.compare right =
      (placeUnpacked? left).bind fun place =>
        (placeUnpacked? right).map fun place' => compare place place' := by
  rcases left with (_ | _) | _ | _ | ⟨_ | _, mantissa, exponent, positive⟩ <;>
    rcases right with (_ | _) | _ | _ | ⟨_ | _, mantissa', exponent', positive'⟩
  case finite.negative.finite.negative =>
    simp [UnpackedFloat.compare, placeUnpacked?, compare_lex, compare_neg, compare_cast,
      Ordering.swap_then]
  case finite.positive.finite.positive =>
    simp [UnpackedFloat.compare, placeUnpacked?, compare_lex, compare_cast]
  all_goals rfl

theorem le_iff_place {left right : Float} :
    left ≤ right ↔ ∃ place ∈ place? left, ∃ place' ∈ place? right, place ≤ place' := by
  have compared : left ≤ right ↔
      (left.toModel.unpack.compare right.toModel.unpack).any Ordering.isLE = true := by
    change decide (left.toModel ≤ right.toModel) = true ↔ _
    rw [decide_eq_true_iff]
    rfl
  rw [compared, compare_unpacked]
  unfold place?
  cases placeUnpacked? left.toModel.unpack <;>
    cases placeUnpacked? right.toModel.unpack <;>
    simp [Ordering.isLE_iff_ne_gt, compare_le_iff_le]

theorem lt_iff_place {left right : Float} :
    left < right ↔ ∃ place ∈ place? left, ∃ place' ∈ place? right, place < place' := by
  have compared : left < right ↔
      left.toModel.unpack.compare right.toModel.unpack = some .lt := by
    change decide (left.toModel < right.toModel) = true ↔ _
    rw [decide_eq_true_iff]
    change (left.toModel.unpack.compare right.toModel.unpack == some .lt) = true ↔ _
    exact beq_iff_eq
  rw [compared, compare_unpacked]
  unfold place?
  cases placeUnpacked? left.toModel.unpack <;>
    cases placeUnpacked? right.toModel.unpack <;>
    simp [compare_lt_iff_lt]

end Binary64

instance : Scalar.Ordered Float where
  le_trans := by
    intro low middle high below above
    rcases Binary64.le_iff_place.mp below with ⟨place, isPlace, place', isPlace', ordered⟩
    rcases Binary64.le_iff_place.mp above with
        ⟨same, isSame, place'', isPlace'', ordered'⟩
    rcases Option.mem_unique isPlace' isSame with rfl
    exact Binary64.le_iff_place.mpr ⟨place, isPlace, place'', isPlace'',
      ordered.trans ordered'⟩
  le_of_lt := by
    intro low high less
    rcases Binary64.lt_iff_place.mp less with ⟨place, isPlace, place', isPlace', ordered⟩
    exact Binary64.le_iff_place.mpr ⟨place, isPlace, place', isPlace', ordered.le⟩
  le_of_not_lt := by
    intro low high lowComparable highComparable notLess
    rcases Binary64.le_iff_place.mp lowComparable with ⟨place, isPlace, -⟩
    rcases Binary64.le_iff_place.mp highComparable with ⟨place', isPlace', -⟩
    refine Binary64.le_iff_place.mpr ⟨place', isPlace', place, isPlace,
      not_lt.mp fun less => ?_⟩
    exact notLess (Binary64.lt_iff_place.mpr ⟨place, isPlace, place', isPlace', less⟩)
  comparable_left := by
    intro low high ordered
    rcases Binary64.le_iff_place.mp ordered with ⟨place, isPlace, -⟩
    exact Binary64.le_iff_place.mpr ⟨place, isPlace, place, isPlace, le_rfl⟩
  comparable_right := by
    intro low high ordered
    rcases Binary64.le_iff_place.mp ordered with ⟨-, -, place, isPlace, -⟩
    exact Binary64.le_iff_place.mpr ⟨place, isPlace, place, isPlace, le_rfl⟩

end Photoplot
