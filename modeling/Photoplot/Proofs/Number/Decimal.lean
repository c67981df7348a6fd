import Mathlib
import Photoplot.Number.Layout
import Photoplot.Number.Numeral

/-! # Decimals in writing

A decimal is a sign, a run of digits and the digits behind the point. The plain
layout writes nothing else unless the value has no digits at all, and reading a
decimal gives back what its digits count. -/

namespace Photoplot

/-! ## Digits -/

namespace Digits

theorem value_append (first second : Text) :
    value (first ++ second) = value first * 10 ^ second.length + value second := by
  induction second using List.reverseRecOn with
  | nil => simp [value]
  | append_singleton second digit induction =>
      rw [← List.append_assoc]
      simp only [value, List.foldl_append, List.foldl_cons, List.foldl_nil,
        List.length_append, List.length_singleton] at induction ⊢
      rw [induction, pow_succ]
      ring

theorem value_zeros (count : ℕ) : value (List.replicate count '0') = 0 := by
  induction count with
  | zero => rfl
  | succ count induction =>
      rw [List.replicate_succ', value_append, induction]
      rfl

theorem digitOf_mod (number : ℕ) : digitOf (number % 10) = digitOf number := by
  rw [digitOf, Nat.mod_mod, digitOf]

theorem isDigit_digitOf (number : ℕ) : (digitOf number).isDigit = true := by
  have all : ∀ digit < 10, (digitOf digit).isDigit = true := by decide
  rw [← digitOf_mod]
  exact all _ (Nat.mod_lt number (by decide))

theorem value_digitOf (number : ℕ) : value [digitOf number] = number % 10 := by
  have all : ∀ digit < 10, value [digitOf digit] = digit := by decide
  rw [← digitOf_mod]
  exact all _ (Nat.mod_lt number (by decide))

theorem value_ofNat (number : ℕ) : value (ofNat number) = number := by
  induction number using Nat.strongRecOn with
  | ind number induction =>
      rw [ofNat]
      split
      · rename_i small
        rw [value_digitOf, Nat.mod_eq_of_lt small]
      · rename_i large
        rw [value_append, induction (number / 10) (by omega), value_digitOf]
        simp only [List.length_singleton, pow_one]
        omega

theorem isRun_ofNat (number : ℕ) : isRun (ofNat number) = true := by
  induction number using Nat.strongRecOn with
  | ind number induction =>
      rw [ofNat]
      split
      · simp [isRun, isDigit_digitOf]
      · have leading := induction (number / 10) (by omega)
        simp only [isRun, Bool.and_eq_true] at leading
        simp [isRun, leading.2, isDigit_digitOf]

theorem isRun_append {first second : Text} (run : isRun first = true)
    (digits : second.all Char.isDigit = true) : isRun (first ++ second) = true := by
  simp only [isRun, Bool.and_eq_true, Bool.not_eq_true',
    List.isEmpty_eq_false_iff] at run ⊢
  simp [run, digits]

end Digits

/-! ## Decimals -/

structure Decimal where
  negative : Bool
  whole : Text
  fraction : Text
  wholeRun : Digits.isRun whole = true
  fractionDigits : fraction.all Char.isDigit = true

namespace Decimal

def unsigned (decimal : Decimal) : Text :=
  decimal.whole ++ if decimal.fraction = [] then [] else '.' :: decimal.fraction

def text (decimal : Decimal) : Text := Layout.signed decimal.negative decimal.unsigned

def numeral (decimal : Decimal) : Numeral :=
  .decimal decimal.negative (Digits.value (decimal.whole ++ decimal.fraction))
    (-(decimal.fraction.length : ℤ))

theorem whole_eq_cons (decimal : Decimal) :
    ∃ first rest, decimal.whole = first :: rest ∧ first.isDigit = true ∧
      rest.all Char.isDigit = true := by
  have run := decimal.wholeRun
  cases whole : decimal.whole with
  | nil => simp [whole, Digits.isRun] at run
  | cons first rest =>
      rw [whole] at run
      simp only [Digits.isRun, List.all_cons, Bool.and_eq_true] at run
      exact ⟨first, rest, rfl, run.2.1, run.2.2⟩

theorem spanDigits_eq {digits : Text} (rest : Text) (run : digits.all Char.isDigit = true)
    (ends : ∀ c ∈ rest.head?, c.isDigit = false) :
    Text.spanDigits (digits ++ rest) = (digits, rest) := by
  have all : ∀ c ∈ digits, c.isDigit = true := List.all_eq_true.mp run
  have stop : rest.takeWhile Char.isDigit = [] ∧ rest.dropWhile Char.isDigit = rest := by
    cases rest with
    | nil => exact ⟨rfl, rfl⟩
    | cons c rest =>
        have other : c.isDigit = false := ends c rfl
        simp [other]
  rw [Text.spanDigits, List.takeWhile_append_of_pos all, List.dropWhile_append_of_pos all,
    stop.1, stop.2, List.append_nil]

/-- A digit is no sign. -/
theorem splitSign_text (decimal : Decimal) :
    Digits.splitSign decimal.text = (decimal.negative, decimal.unsigned) := by
  rcases decimal.whole_eq_cons with ⟨first, rest, whole, isDigit, -⟩
  cases negative : decimal.negative with
  | true => simp [text, negative, Layout.signed, Digits.splitSign]
  | false =>
      have notMinus : first ≠ '-' := by
        rintro rfl
        exact absurd isDigit (by decide)
      have notPlus : first ≠ '+' := by
        rintro rfl
        exact absurd isDigit (by decide)
      have plain : decimal.text = first :: (rest ++ if decimal.fraction = [] then [] else
          '.' :: decimal.fraction) := by
        simp [text, negative, Layout.signed, unsigned, whole]
      rw [plain, unsigned, whole]
      unfold Digits.splitSign
      split
      · rename_i equal
        exact absurd (List.cons.inj equal).1 notMinus
      · rename_i equal
        exact absurd (List.cons.inj equal).1 notPlus
      · rfl

theorem readUnsigned_unsigned (decimal : Decimal) :
    Numeral.readUnsigned decimal.unsigned =
      some (Digits.value (decimal.whole ++ decimal.fraction),
        -(decimal.fraction.length : ℤ)) := by
  rcases decimal.whole_eq_cons with ⟨first, rest, whole, isDigit, restDigits⟩
  have digits : decimal.whole.all Char.isDigit = true := by
    simp [whole, isDigit, restDigits]
  have some : decimal.whole.isEmpty = false := by simp [whole]
  by_cases empty : decimal.fraction = []
  · have span := spanDigits_eq [] digits (by simp)
    rw [List.append_nil] at span
    simp [Numeral.readUnsigned, unsigned, empty, some, Numeral.readExponent, span]
  · have span := spanDigits_eq ('.' :: decimal.fraction) digits (by simp)
    have span' := spanDigits_eq [] decimal.fractionDigits (by simp)
    rw [List.append_nil] at span'
    simp [Numeral.readUnsigned, unsigned, empty, some, Numeral.readExponent, span, span']

theorem read_text (decimal : Decimal) :
    Numeral.read decimal.text = some decimal.numeral := by
  simp only [Numeral.read, splitSign_text, readUnsigned_unsigned]
  rfl

/-! ## Layouts -/

theorem isRun_take {digits : Text} {count : ℕ} (run : Digits.isRun digits = true)
    (some : 0 < count) : Digits.isRun (digits.take count) = true := by
  simp only [Digits.isRun, Bool.and_eq_true, Bool.not_eq_true', List.isEmpty_eq_false_iff,
    List.all_eq_true] at run ⊢
  refine ⟨?_, fun c member => run.2 c (List.mem_of_mem_take member)⟩
  intro empty
  rcases List.take_eq_nil_iff.mp empty with none | nothing
  · omega
  · exact run.1 nothing

def ofPositional (negative : Bool) (digits : Text) (run : Digits.isRun digits = true) :
    (place : ℤ) → Decimal
  | .ofNat power =>
      ⟨negative, digits ++ List.replicate power '0', [],
        Digits.isRun_append run (by simp), rfl⟩
  | .negSucc power =>
      if inside : power + 1 < digits.length then
        ⟨negative, digits.take (digits.length - (power + 1)),
          digits.drop (digits.length - (power + 1)),
          isRun_take run (Nat.sub_pos_of_lt inside), by
            simp only [Digits.isRun, Bool.and_eq_true, List.all_eq_true] at run ⊢
            exact fun c member => run.2 c (List.mem_of_mem_drop member)⟩
      else
        ⟨negative, ['0'], List.replicate (power + 1 - digits.length) '0' ++ digits,
          rfl, by
          simp only [Digits.isRun, Bool.and_eq_true] at run
          simp [run.2]⟩

theorem text_ofPositional (negative : Bool) (digits : Text)
    (run : Digits.isRun digits = true)
    (place : ℤ) : (ofPositional negative digits run place).text =
      Layout.signed negative (Layout.positional digits place) := by
  cases place with
  | ofNat power => simp [ofPositional, text, unsigned, Layout.positional]
  | negSucc power =>
      simp only [ofPositional, Layout.positional]
      split
      · rename_i inside
        have some : digits.drop (digits.length - (power + 1)) ≠ [] := by
          intro empty
          have short := List.drop_eq_nil_iff.mp empty
          omega
        simp only [text, unsigned, some, if_false]
      · rename_i outside
        have some : List.replicate (power + 1 - digits.length) '0' ++ digits ≠ [] := by
          intro empty
          rw [(List.append_eq_nil_iff.mp empty).2] at run
          exact absurd run (by decide)
        simp only [text, unsigned, some, if_false]
        rfl

/-- The point does not change what the digits count. -/
theorem numeral_ofPositional (negative : Bool) (digits : Text)
    (run : Digits.isRun digits = true)
    (places : ℕ) : (ofPositional negative digits run (-(places : ℤ))).numeral =
      .decimal negative (Digits.value digits) (-(places : ℤ)) := by
  cases places with
  | zero => simp [ofPositional, numeral]
  | succ power =>
      have place : -((power + 1 : ℕ) : ℤ) = Int.negSucc power := rfl
      rw [place]
      simp only [ofPositional]
      split
      · rename_i inside
        have length : digits.length - (digits.length - (power + 1)) = power + 1 := by
          omega
        simp only [numeral, List.take_append_drop, List.length_drop, length]
        rfl
      · rename_i outside
        have length : power + 1 - digits.length + digits.length = power + 1 := by omega
        have zero : ['0'] ++ (List.replicate (power + 1 - digits.length) '0' ++ digits) =
            List.replicate (power + 1 - digits.length + 1) '0' ++ digits := by
          rw [← List.append_assoc, ← List.replicate_one, List.replicate_append_replicate,
            Nat.add_comm 1]
        simp only [numeral, zero, Digits.value_append, Digits.value_zeros, Nat.zero_mul,
          Nat.zero_add, List.length_append, List.length_replicate, length]
        rfl

/-- Zeros in front of the point keep the value as well. -/
theorem exists_numeral_ofPositional (negative : Bool) (digits : Text)
    (run : Digits.isRun digits = true) (place : ℤ) :
    ∃ (number : ℕ) (exponent : ℤ),
      (ofPositional negative digits run place).numeral =
        .decimal negative number exponent ∧
        (number * 10 ^ exponent : ℚ) = Digits.value digits * 10 ^ place := by
  cases place with
  | ofNat power =>
      refine ⟨_, _, rfl, ?_⟩
      simp [ofPositional, Digits.value_append, Digits.value_zeros]
  | negSucc power =>
      exact ⟨_, _, numeral_ofPositional negative digits run (power + 1), rfl⟩

end Decimal

def Layout.words : List Text := ["-inf".toList, "inf".toList, "NaN".toList]

theorem Layout.plain_eq (x : Float) :
    Layout.plain x ∈ Layout.words ∨ ∃ decimal : Decimal,
    Layout.plain x = decimal.text := by
  unfold Layout.plain
  split
  · left
    split
    · simp [Layout.words]
    · split <;> simp [Layout.words]
  · right
    rename_i number _
    split
    · exact ⟨⟨number.negative, ['0'], [], rfl, rfl⟩, rfl⟩
    · rw [← Decimal.text_ofPositional _ _ (Digits.isRun_ofNat _)]
      exact ⟨_, rfl⟩

end Photoplot
