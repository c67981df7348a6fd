import Photoplot.Proofs.Number.Decimal
import Photoplot.Proofs.Scalar.Exact

/-! # Written coordinates

A coordinate over the reals is rounded to six places, and that is the value that
its text is read as. -/

namespace Photoplot.Exact

theorem power_eq (base : ℝ) (exponent : ℕ) :
    Scalar.power base exponent = base ^ exponent := by
  have loop : ∀ (exponent : ℕ) (base result : ℝ),
      Scalar.power.go base exponent result = result * base ^ exponent := by
    intro exponent
    induction exponent using Nat.strongRecOn with
    | ind exponent induction =>
        intro base result
        have halves : base ^ exponent =
            (base * base) ^ (exponent / 2) * base ^ (exponent % 2) := by
          rw [← pow_two, ← pow_mul, ← pow_add, Nat.div_add_mod]
        have next : (if exponent % 2 = 1 then result * base else result) =
            result * base ^ (exponent % 2) := by
          rcases Nat.mod_two_eq_zero_or_one exponent with even | odd
          · simp [even]
          · simp [odd]
        rw [Scalar.power.go]
        simp only [next]
        split
        · rename_i last
          rw [halves, last, pow_zero, one_mul]
        · rw [induction (exponent / 2) (by omega), halves]
          ring
  unfold Scalar.power
  split
  · rename_i zero
    rw [zero, pow_zero, one_eq]
  · rw [loop, one_eq, one_mul]

theorem abs_round_sub_le (x : ℝ) : |(round x : ℝ) - x| ≤ 1 / 2 := by
  unfold round
  split
  · have below := Int.floor_le (x + 1 / 2)
    have above := Int.lt_floor_add_one (x + 1 / 2)
    rw [abs_le]
    constructor
    · linarith
    · linarith
  · have above := Int.le_ceil (x - 1 / 2)
    have below := Int.ceil_lt_add_one (x - 1 / 2)
    rw [abs_le]
    constructor
    · linarith
    · linarith

/-- Rounding to six places goes to a neighbouring multiple of a millionth. -/
theorem roundPlaces_eq (x : ℝ) :
    Scalar.roundPlaces 6 x = (round (x * 10 ^ 6) : ℝ) / 10 ^ 6 := by
  simp only [Scalar.roundPlaces, power_eq, ten_eq, zero_eq]
  change (if Scalar.Same ((round (x * 10 ^ 6) : ℝ) / 10 ^ 6) 0 then 0 else _) = _
  split
  · rename_i same
    exact le_antisymm same.2 same.1
  · rfl

theorem abs_roundPlaces_sub_le (x : ℝ) : |Scalar.roundPlaces 6 x - x| ≤ 5e-7 := by
  have near := abs_round_sub_le (x * 10 ^ 6)
  rw [roundPlaces_eq, abs_le] at *
  constructor
  · rw [le_sub_iff_add_le, le_div_iff₀ (by positivity)]
    linarith [near.1]
  · rw [sub_le_iff_le_add, div_le_iff₀ (by positivity)]
    linarith [near.2]

theorem hasPlaces_roundPlaces (x : ℝ) : HasPlaces (Scalar.roundPlaces 6 x) 6 := by
  refine ⟨round (x * 10 ^ 6), ?_⟩
  rw [roundPlaces_eq]
  exact div_mul_cancel₀ _ (by positivity)

/-! ## Values that need no more than six places -/

theorem round_eq {x : ℝ} {whole : ℤ} (near : |x - whole| < 1 / 2) : round x = whole := by
  have rounded := abs_round_sub_le x
  have apart : |((round x - whole : ℤ) : ℝ)| < 1 := by
    push_cast
    calc |(round x : ℝ) - whole| ≤ |(round x : ℝ) - x| + |x - whole| := abs_sub_le _ _ _
      _ < 1 := by linarith
  have none : |round x - whole| < 1 := by exact_mod_cast apart
  exact sub_eq_zero.mp (Int.abs_lt_one_iff.mp none)

/-- A value near enough to one with six places is rounded to that. -/
theorem roundPlaces_eq_of_abs_lt {x value : ℝ} (places : HasPlaces value 6)
    (near : |x - value| < 5e-7) : Scalar.roundPlaces 6 x = value := by
  rcases places with ⟨whole, isWhole⟩
  have scaled : |x * 10 ^ 6 - whole| < 1 / 2 := by
    rw [← isWhole, ← sub_mul, abs_mul, abs_of_pos (by positivity : (0 : ℝ) < 10 ^ 6)]
    linarith
  rw [roundPlaces_eq, round_eq scaled, ← isWhole]
  exact mul_div_cancel_right₀ value (by positivity)

theorem HasPlaces.roundPlaces {x : ℝ} (places : HasPlaces x 6) :
    Scalar.roundPlaces 6 x = x :=
  roundPlaces_eq_of_abs_lt places (by norm_num)

theorem HasPlaces.neg {x : ℝ} {places : ℕ} (hasPlaces : HasPlaces x places) :
    HasPlaces (-x) places := by
  rcases hasPlaces with ⟨whole, isWhole⟩
  exact ⟨-whole, by rw [neg_mul, isWhole, Int.cast_neg]⟩

theorem hasPlaces_natCast (number places : ℕ) : HasPlaces (number : ℝ) places :=
  ⟨number * 10 ^ places, by push_cast; rfl⟩

theorem IsHalfway.add {x value : ℝ} (halfway : IsHalfway x) (places : HasPlaces value 6) :
    IsHalfway (x + value) := by
  rcases halfway with ⟨whole, isHalf⟩
  rcases places with ⟨other, isWhole⟩
  refine ⟨whole + other, ?_⟩
  rw [add_mul, isHalf, isWhole]
  push_cast
  ring

/-- Only what is half way moves by half a place. -/
theorem abs_roundPlaces_sub_lt {x : ℝ} (between : ¬IsHalfway x) :
    |Scalar.roundPlaces 6 x - x| < 5e-7 := by
  apply lt_of_le_of_ne (abs_roundPlaces_sub_le x)
  intro half
  apply between
  rcases hasPlaces_roundPlaces x with ⟨whole, isWhole⟩
  have scaled : (5e-7 : ℝ) * 10 ^ 6 = 1 / 2 := by norm_num
  rcases (abs_eq (by norm_num : (0 : ℝ) ≤ 5e-7)).mp half with above | below
  · refine ⟨whole - 1, ?_⟩
    have moved : x = Scalar.roundPlaces 6 x - 5e-7 := by linarith
    rw [moved, sub_mul, isWhole, scaled]
    push_cast
    ring
  · refine ⟨whole, ?_⟩
    have moved : x = Scalar.roundPlaces 6 x + 5e-7 := by linarith
    rw [moved, add_mul, isWhole, scaled]

/-! ## Texts -/

theorem exists_decimal_text {x : ℝ} (fraction : ∃ places, HasPlaces x places) :
    ∃ decimal : Decimal, text x = decimal.text ∧ ofNumeral? decimal.numeral = some x := by
  classical
  rcases Nat.find_spec fraction with ⟨whole, isWhole⟩
  have places : text x = Layout.signed (decide (whole < 0))
      (Layout.positional (Digits.ofNat whole.natAbs) (-(Nat.find fraction : ℤ))) := by
    simp only [text, dif_pos fraction, isWhole, Int.floor_intCast]
  refine ⟨_, places.trans (Decimal.text_ofPositional _ _ (Digits.isRun_ofNat _) _).symm,
    ?_⟩
  rw [Decimal.numeral_ofPositional, Digits.value_ofNat]
  have magnitude : ((whole.natAbs : ℕ) : ℝ) = |(whole : ℝ)| := by
    rw [Nat.cast_natAbs, Int.cast_abs]
  have value : x = whole * (10 : ℝ) ^ (-(Nat.find fraction : ℤ)) := by
    rw [← isWhole, zpow_neg, zpow_natCast, mul_assoc, mul_inv_cancel₀ (by positivity),
      mul_one]
  simp only [ofNumeral?, magnitude]
  by_cases negative : whole < 0
  · have cast : (whole : ℝ) < 0 := by exact_mod_cast negative
    simp only [negative, decide_true, if_true, abs_of_neg cast, neg_mul, neg_neg]
    rw [← value]
  · have cast : (0 : ℝ) ≤ whole := by exact_mod_cast not_lt.mp negative
    simp only [negative, decide_false, Bool.false_eq_true, if_false, abs_of_nonneg cast]
    rw [← value]

theorem text_natCast (number : ℕ) : text (number : ℝ) = Digits.ofNat number := by
  classical
  have places : HasPlaces (number : ℝ) 0 := ⟨number, by simp⟩
  have fraction : ∃ places, HasPlaces (number : ℝ) places := ⟨0, places⟩
  have none : Nat.find fraction = 0 := (Nat.find_eq_zero fraction).mpr places
  have floor : ⌊(number : ℝ) * 10 ^ 0⌋ = (number : ℤ) := by simp
  have notNegative : ¬(number : ℤ) < 0 := by omega
  simp only [text, dif_pos fraction, none, floor, notNegative, decide_false,
    Layout.signed, Bool.false_eq_true, if_false, Int.natAbs_natCast]
  exact List.append_nil _

theorem exists_decimal_coordinate (x : ℝ) :
    ∃ decimal : Decimal, Scalar.coordinate x = decimal.text ∧
      Scalar.read? decimal.text = some (Scalar.roundPlaces 6 x) := by
  rcases exists_decimal_text ⟨6, hasPlaces_roundPlaces x⟩ with ⟨decimal, written, value⟩
  refine ⟨decimal, written, ?_⟩
  rw [Scalar.read?, decimal.read_text]
  exact value

end Photoplot.Exact
