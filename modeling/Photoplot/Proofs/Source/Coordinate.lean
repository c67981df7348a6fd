import Photoplot.Proofs.Scalar.Rounding
import Photoplot.Plot.Decoder

/-! # Coordinates in writing

A coordinate counts the units of its last decimal place. It is written with all
the digits of the format, less zeros on the side that the format suppresses, and
what is read is the number that was written, however many zeros were left out. -/

namespace Photoplot

/-! ## Runs with zeros -/

namespace Digits

theorem length_ofNat_le {number width : ℕ} (some : 0 < width)
    (bound : number < 10 ^ width) :
    (ofNat number).length ≤ width := by
  induction number using Nat.strongRecOn generalizing width with
  | ind number induction =>
      rw [ofNat]
      split
      · exact some
      · rename_i large
        obtain ⟨rest, rfl⟩ : ∃ rest, width = rest + 1 := ⟨width - 1, by omega⟩
        have shorter : number / 10 < 10 ^ rest := by
          rw [pow_succ] at bound
          omega
        have left : 0 < rest := by
          rcases Nat.eq_zero_or_pos rest with rfl | left
          · rw [pow_zero] at shorter
            omega
          · exact left
        have leading := induction (number / 10) (by omega) left shorter
        simpa using leading

theorem length_padded {number width : ℕ} (some : 0 < width)
    (bound : number < 10 ^ width) :
    (padded width number).length = width := by
  have fits := length_ofNat_le some bound
  simp only [padded, List.length_append, List.length_replicate]
  omega

theorem value_padded (width number : ℕ) : value (padded width number) = number := by
  simp [padded, value_append, value_zeros, value_ofNat]

theorem all_padded (width number : ℕ) :
    (padded width number).all Char.isDigit = true := by
  have run := isRun_ofNat number
  simp only [isRun, Bool.and_eq_true] at run
  simp [padded, run.2]

/-! ## Suppressed zeros -/

/-- Zeros at the suppressed end are left out, as many as one likes as long as a
digit stays. -/
inductive Suppressed : ZeroSuppression → (full written : Text) → Prop
  | leading (zeros : ℕ) {written : Text} (some : written ≠ []) :
      Suppressed .leading (List.replicate zeros '0' ++ written) written
  | trailing (zeros : ℕ) {written : Text} (some : written ≠ []) :
      Suppressed .trailing (written ++ List.replicate zeros '0') written

namespace Suppressed

variable {zeros : ZeroSuppression} {full written : Text}

theorem isRun (suppressed : Suppressed zeros full written)
    (digits : full.all Char.isDigit = true) : isRun written = true := by
  cases suppressed with
  | leading _ some =>
      simp only [List.all_append, Bool.and_eq_true] at digits
      simp [Digits.isRun, some, digits.2]
  | trailing _ some =>
      simp only [List.all_append, Bool.and_eq_true] at digits
      simp [Digits.isRun, some, digits.1]

theorem length_le (suppressed : Suppressed zeros full written) :
    written.length ≤ full.length := by
  cases suppressed <;> simp

/-- Only zeros at the end count for the value. -/
theorem value_mul (suppressed : Suppressed zeros full written) :
    value written * 10 ^ (if zeros = .trailing then full.length - written.length else 0) =
      value full := by
  cases suppressed with
  | leading => simp [value_append, value_zeros]
  | trailing => simp [value_append, value_zeros]

theorem value_le (suppressed : Suppressed zeros full written) :
    value written ≤ value full := by
  rw [← suppressed.value_mul]
  exact Nat.le_mul_of_pos_right _ (by positivity)

end Suppressed

/-! ## Signs -/

def IsSign (number : ℤ) (sign : Text) : Prop :=
  if number < 0 then sign = ['-'] else sign = [] ∨ sign = ['+']

def withSign (number : ℤ) (magnitude : ℕ) : ℤ :=
  if number < 0 then -(magnitude : ℤ) else magnitude

theorem withSign_natAbs (number : ℤ) : withSign number number.natAbs = number := by
  unfold withSign
  split <;> omega

theorem withSign_mul (number : ℤ) (magnitude factor : ℕ) :
    withSign number (magnitude * factor) = withSign number magnitude * factor := by
  unfold withSign
  split <;> push_cast <;> ring

theorem splitSign_run {digits : Text} (run : isRun digits = true) :
    splitSign digits = (false, digits) := by
  have unsigned := Decimal.splitSign_text ⟨false, digits, [], run, rfl⟩
  simpa [Decimal.text, Decimal.unsigned, Layout.signed] using unsigned

theorem splitSign_append {number : ℤ} {sign digits : Text} (isSign : IsSign number sign)
    (run : isRun digits = true) :
    splitSign (sign ++ digits) = (decide (number < 0), digits) := by
  unfold IsSign at isSign
  split at isSign
  · rename_i negative
    rw [isSign, decide_eq_true negative]
    rfl
  · rename_i notNegative
    rw [decide_eq_false notNegative]
    rcases isSign with rfl | rfl
    · exact splitSign_run run
    · rfl

theorem readSigned_append {number : ℤ} {sign digits : Text} (isSign : IsSign number sign)
    (run : isRun digits = true) (small : value digits < 2 ^ 63) :
    readSigned (sign ++ digits) = some (withSign number (value digits)) := by
  simp only [readSigned, splitSign_append isSign run, run, withSign]
  by_cases negative : number < 0
  · simpa [negative] using small.le
  · simpa [negative] using small

end Digits

/-! ## Coordinate fields -/

namespace RawCoordinate

inductive Spells (format : CoordinateFormat) (axis : Axis) (number : ℤ) : Text → Prop
  | intro {sign digits : Text} (isSign : Digits.IsSign number sign)
      (suppressed : Digits.Suppressed format.zeros
        (Digits.padded (format.counts axis).total number.natAbs) digits) :
      Spells format axis number (sign ++ digits)

theorem dropWhile_sign {number : ℤ} {sign digits : Text}
    (isSign : Digits.IsSign number sign) (run : Digits.isRun digits = true) :
    (sign ++ digits).dropWhile (fun c => c = '+' || c = '-') = digits := by
  have unsigned : digits.dropWhile (fun c => c = '+' || c = '-') = digits := by
    cases digits with
    | nil => rfl
    | cons first rest =>
        simp only [Digits.isRun, List.all_cons, Bool.and_eq_true] at run
        have plus : first ≠ '+' := by
          rintro rfl
          exact absurd run.2.1 (by decide)
        have minus : first ≠ '-' := by
          rintro rfl
          exact absurd run.2.1 (by decide)
        simp [plus, minus]
  unfold Digits.IsSign at isSign
  split at isSign
  · simp [isSign, unsigned]
  · rcases isSign with rfl | rfl <;> simp [unsigned]

theorem not_contains_point {number : ℤ} {sign digits : Text}
    (isSign : Digits.IsSign number sign) (run : Digits.isRun digits = true) :
    (sign ++ digits).contains '.' = false := by
  have inDigits : '.' ∉ digits := by
    intro member
    simp only [Digits.isRun, Bool.and_eq_true, List.all_eq_true] at run
    exact absurd (run.2 _ member) (by decide)
  have inSign : '.' ∉ sign := by
    unfold Digits.IsSign at isSign
    split at isSign
    · simp [isSign]
    · rcases isSign with rfl | rfl <;> simp
  simp [inDigits, inSign]

/-- A run of digits that fits a signed number of 64 bits is read. -/
theorem read?_append {K : Type} [Scalar K] {number : ℤ} {sign digits : Text}
    (isSign : Digits.IsSign number sign) (run : Digits.isRun digits = true)
    (short : digits.length ≤ 255) (small : Digits.value digits < 2 ^ 63) :
    read? (K := K) (sign ++ digits) =
      some (.integer (Digits.withSign number (Digits.value digits)) digits.length) := by
  unfold read?
  rw [not_contains_point isSign run]
  simp [dropWhile_sign isSign run, run, short, Digits.readSigned_append isSign run small]

end RawCoordinate

namespace Decoder

variable {decoder : Decoder} {axis : Axis} {number : ℤ} {text : Text}

@[simp] theorem addressing_start : start.format.addressing = .absolute := rfl

/-- Without a header, numbers with a decimal point are millimetres. -/
@[simp] theorem decode_start_decimal (axis : Axis) (value : ℝ) :
    start.decode axis (.decimal value) = value := by
  simp [decode, toMillimeters, Decoder.value, start, Units.scale, Exact.one_eq]

/-- Zeros that were left out at the end are put back; those in front count
nothing. -/
theorem value_integer (decoder : Decoder) (axis : Axis) (value : ℤ) {digits : ℕ}
    (short : digits ≤ (decoder.format.counts axis).total) :
    decoder.value (K := ℝ) axis (.integer value digits) =
      value * 10 ^ (if decoder.format.zeros = .trailing then
        (decoder.format.counts axis).total - digits else 0) /
          10 ^ (decoder.format.counts axis).decimal := by
  have whole : Scalar.ofInt (K := ℝ) value = value := rfl
  simp only [Decoder.value, Exact.power_eq, Exact.ten_eq, whole]
  by_cases trailing : decoder.format.zeros = .trailing
  · rcases short.lt_or_eq with fewer | all
    · simp [trailing, fewer]
    · simp [trailing, all]
  · simp [trailing]

/-- What is read is the number in units of the file. -/
theorem map_decode_eq (some : 0 < (decoder.format.counts axis).total)
    (narrow : (decoder.format.counts axis).total ≤ 18)
    (bound : number.natAbs < 10 ^ (decoder.format.counts axis).total)
    (spells : RawCoordinate.Spells decoder.format axis number text) :
    (RawCoordinate.read? text).map (decoder.decode axis) =
      .some (number / 10 ^ (decoder.format.counts axis).decimal *
        decoder.units.scale : ℝ) := by
  rcases spells with @⟨sign, digits, isSign, suppressed⟩
  have full := Digits.length_padded some bound
  have run := suppressed.isRun (Digits.all_padded _ _)
  have short : digits.length ≤ (decoder.format.counts axis).total :=
    suppressed.length_le.trans_eq full
  have small : Digits.value digits < 2 ^ 63 := by
    calc Digits.value digits ≤ number.natAbs := by
          simpa [Digits.value_padded] using suppressed.value_le
      _ < 10 ^ (decoder.format.counts axis).total := bound
      _ ≤ 10 ^ 18 := Nat.pow_le_pow_right (by decide) narrow
      _ < 2 ^ 63 := by decide
  have restored : Digits.withSign number (Digits.value digits) *
      ((10 ^ (if decoder.format.zeros = .trailing then
        (decoder.format.counts axis).total - digits.length else 0) :
        ℕ) : ℤ) = number := by
    have value := suppressed.value_mul
    rw [Digits.value_padded, full] at value
    rw [← Digits.withSign_mul, value, Digits.withSign_natAbs]
  have exact := congrArg (Int.cast : ℤ → ℝ) restored
  push_cast at exact
  rw [RawCoordinate.read?_append isSign run (by omega) small, Option.map_some, decode,
    toMillimeters, value_integer decoder axis _ short, exact]

/-- A number below the range of its format comes back exactly from each of its
spellings, and so all spellings of it agree, whatever zeros their formats
suppress. -/
theorem decode_of_spelling (integer : (decoder.format.counts axis).integer ≤ 9)
    (decimal : (decoder.format.counts axis).decimal ≤ 9)
    (some : 1 ≤ (decoder.format.counts axis).integer +
      (decoder.format.counts axis).decimal)
    (bound : |number| <
      10 ^ ((decoder.format.counts axis).integer + (decoder.format.counts axis).decimal))
    (spells : RawCoordinate.Spells decoder.format axis number text) :
    (RawCoordinate.read? text).map (decoder.decode axis) =
        .some (number / 10 ^ (decoder.format.counts axis).decimal *
          decoder.units.scale : ℝ) ∧
      ∀ (other : Decoder) (otherAxis : Axis) (otherText : Text),
        other.format.counts otherAxis = decoder.format.counts axis →
        other.units = decoder.units →
        RawCoordinate.Spells other.format otherAxis number otherText →
          (RawCoordinate.read? otherText).map (other.decode otherAxis) =
            (RawCoordinate.read? (K := ℝ) text).map (decoder.decode axis) := by
  have small : number.natAbs < 10 ^ (decoder.format.counts axis).total := by
    zify
    exact bound
  have narrow : (decoder.format.counts axis).total ≤ 18 := by
    unfold DigitCounts.total
    omega
  have read := map_decode_eq some narrow small spells
  refine ⟨read, ?_⟩
  intro other otherAxis otherText counts units otherSpells
  rw [read,
    map_decode_eq (by rwa [counts]) (by rwa [counts]) (by rwa [counts]) otherSpells,
    counts, units]

/-- `-0125` with trailing zeros suppressed is the same as `-12500` with leading
ones suppressed: an inch and a quarter. -/
theorem decode_inch_and_quarter :
    let trailing : Decoder :=
      ⟨⟨.trailing, .absolute, ⟨3, 6⟩, ⟨2, 4⟩⟩, .inches, true, true⟩
    let leading : Decoder :=
        ⟨⟨.leading, .incremental, ⟨2, 4⟩, ⟨1, 1⟩⟩, .inches, true, true⟩
    (2 ≤ 9 ∧ 4 ≤ 9 ∧ 1 ≤ 2 + 4 ∧ |(-12500 : ℤ)| < 10 ^ (2 + 4)) ∧
      RawCoordinate.Spells trailing.format .y (-12500) "-0125".toList ∧
      RawCoordinate.Spells leading.format .x (-12500) "-12500".toList ∧
      (RawCoordinate.read? "-0125".toList).map (trailing.decode .y) =
        .some (-12500 / 10 ^ 4 * Units.inches.scale : ℝ) ∧
      (RawCoordinate.read? "-12500".toList).map (leading.decode .x) =
        (RawCoordinate.read? (K := ℝ) "-0125".toList).map (trailing.decode .y) := by
  intro trailing leading
  have bound : |(-12500 : ℤ)| < 10 ^ (2 + 4) := by decide
  have padded : Digits.padded 6 12500 = "012500".toList := by
    simp [Digits.padded, Digits.ofNat, Digits.digitOf]
  have sign : Digits.IsSign (-12500) ['-'] := rfl
  have trailingSpells :
      RawCoordinate.Spells trailing.format .y (-12500) "-0125".toList := by
    have suppressed :
        Digits.Suppressed .trailing (Digits.padded 6 12500) "0125".toList := by
      rw [padded]
      exact @Digits.Suppressed.trailing 2 "0125".toList (by decide)
    exact .intro sign suppressed
  have leadingSpells :
      RawCoordinate.Spells leading.format .x (-12500) "-12500".toList := by
    have suppressed :
        Digits.Suppressed .leading (Digits.padded 6 12500) "12500".toList := by
      rw [padded]
      exact @Digits.Suppressed.leading 1 "12500".toList (by decide)
    exact .intro sign suppressed
  have decoded :=
      decode_of_spelling (by decide) (by decide) (by decide) bound trailingSpells
  refine ⟨⟨by decide, by decide, by decide, bound⟩, trailingSpells, leadingSpells, ?_, ?_⟩
  · simpa [trailing, CoordinateFormat.counts] using decoded.1
  · exact decoded.2 leading .x _ rfl rfl leadingSpells

end Decoder

end Photoplot
