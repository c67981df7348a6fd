import Photoplot.Number.Digits

/-! # Numerals

The written form of a number, before any arithmetic gives it a value: an
optional sign, digits with an optional fraction, an optional exponent, or one
of the words for the values that have no digits. -/

namespace Photoplot

/-- `decimal negative digits exponent` stands for `±digits · 10 ^ exponent`. -/
inductive Numeral
  | decimal (negative : Bool) (digits : Nat) (exponent : Int)
  | infinite (negative : Bool)
  | undefined
  deriving DecidableEq, Repr

namespace Numeral

def readExponent : Text → Option Int
  | [] => some 0
  | mark :: rest =>
      if mark = 'e' || mark = 'E' then
        let (negative, digits) := Digits.splitSign rest
        if Digits.isRun digits then
          some (if negative then -(Digits.value digits : Int) else Digits.value digits)
        else none
      else none

/-- Digits, a fraction after a point, or both. The digits are returned as one
run together with the power of ten that its last digit counts. -/
def readUnsigned (text : Text) : Option (Nat × Int) :=
  let (whole, rest) := Text.spanDigits text
  let (fraction, rest) := match rest with
    | '.' :: after => Text.spanDigits after
    | _ => ([], rest)
  if whole.isEmpty && fraction.isEmpty then none
  else (readExponent rest).map fun exponent =>
    (Digits.value (whole ++ fraction), exponent - fraction.length)

def readWord (negative : Bool) (text : Text) : Option Numeral :=
  let word := text.map Char.toLower
  if word = "inf".toList || word = "infinity".toList then some (.infinite negative)
  else if word = "nan".toList then some .undefined
  else none

def read (text : Text) : Option Numeral :=
  let (negative, unsigned) := Digits.splitSign text
  match readUnsigned unsigned with
  | some (digits, exponent) => some (.decimal negative digits exponent)
  | none => readWord negative unsigned

example : read ['-', '1', '.', '5', '0'] = some (.decimal true 150 (-2)) := by decide

example : read ['.', '5', 'e', '+', '3'] = some (.decimal false 5 2) := by decide

example : read ['5', '.'] = some (.decimal false 5 0) := by decide

example : read ['.'] = none := by decide

example : read ['1', 'e'] = none := by decide

end Numeral

end Photoplot
