import Photoplot.Text.Basic

/-! # Decimal digits

Natural numbers and integers as runs of ASCII digits. Reading is bounded where
the format has a width: codes have 32 bits, coordinates 64 bits with a sign. -/

namespace Photoplot.Digits

def value (digits : Text) : Nat :=
  digits.foldl (fun number digit => number * 10 + (digit.toNat - '0'.toNat)) 0

example : value ['0', '4', '2'] = 42 := rfl

def digitOf (number : Nat) : Char := Char.ofNat ('0'.toNat + number % 10)

def ofNat (number : Nat) : Text :=
  if _small : number < 10 then [digitOf number]
  else ofNat (number / 10) ++ [digitOf number]
termination_by number

example : ofNat 0 = ['0'] := by simp [ofNat, digitOf]

def padded (width number : Nat) : Text :=
  let digits := ofNat number
  List.replicate (width - digits.length) '0' ++ digits

def ofInt (number : Int) : Text :=
  if number < 0 then '-' :: ofNat number.natAbs else ofNat number.natAbs

def splitSign : Text → Bool × Text
  | '-' :: rest => (true, rest)
  | '+' :: rest => (false, rest)
  | text => (false, text)

def isRun (text : Text) : Bool := !text.isEmpty && text.all Char.isDigit

/-- An unsigned number below `2 ^ 32`; a plus sign may stand in front. -/
def readCode (text : Text) : Option Nat :=
  let digits := match text with
    | '+' :: rest => rest
    | _ => text
  if isRun digits && value digits < 1 <<< 32 then some (value digits) else none

def readSigned (text : Text) : Option Int :=
  let (negative, digits) := splitSign text
  if !isRun digits then none
  else if negative then
    if value digits ≤ 1 <<< 63 then some (-(value digits : Int)) else none
  else if value digits < 1 <<< 63 then some (value digits)
  else none

example : readCode ['+', '7'] = some 7 := rfl

example : readCode ['-', '7'] = none := rfl

example : readSigned ['-', '0', '7'] = some (-7) := rfl

end Photoplot.Digits
