import Photoplot.Number.Binary

/-! # Shortest digits

The fewest decimal digits that read back as a given float. A float stands for
an interval of reals, those that round to it; of the decimals with one digit,
two digits and so on, the first grid with a point in that interval wins, and
on it the point nearest to the value. -/

namespace Photoplot.Shortest

inductive Tie
  | up
  | even
  deriving DecidableEq, Repr

/-- A value and the ends of its rounding interval over one denominator. The
ends belong to the interval when `closed` holds. -/
structure Target where
  value : Nat
  lower : Nat
  upper : Nat
  denominator : Nat
  closed : Bool
  deriving DecidableEq, Repr

/-- Neighbours are one unit of the mantissa apart, except below a power of
two, where they are half as far. -/
def Target.ofBinary (number : Binary) : Target :=
  let narrow := number.mantissa == 1 <<< 52 && decide (-1074 < number.exponent)
  let quarters := number.mantissa * 4
  let down := if narrow then 1 else 2
  let closed := number.mantissa % 2 == 0
  match number.exponent - 2 with
  | .ofNat power =>
      ⟨quarters <<< power, (quarters - down) <<< power,
        (quarters + 2) <<< power, 1, closed⟩
  | .negSucc power => ⟨quarters, quarters - down, quarters + 2, 1 <<< (power + 1), closed⟩

namespace Target

/-- The target seen on the grid of multiples of `10 ^ place`: the value and
the two ends, and the step of the grid, in one unit. -/
def onGrid (target : Target) : (place : Int) → Nat × Nat × Nat × Nat
  | .ofNat power =>
      (target.value, target.lower, target.upper, Nat.pow 10 power * target.denominator)
  | .negSucc power =>
      let factor := Nat.pow 10 (power + 1)
      (target.value * factor, target.lower * factor, target.upper * factor,
        target.denominator)

def reaches (target : Target) (place : Int) : Bool :=
  let (value, _, _, step) := target.onGrid place
  step ≤ value

def climb (target : Target) : Nat → Int → Int
  | 0, place => place
  | steps + 1, place =>
      if target.reaches (place + 1) then target.climb steps (place + 1) else place

/-- The place of the leading digit. The binary logarithm gives it but for a
few steps. -/
def leadingPlace (target : Target) : Int :=
  let bits : Int := (target.value.log2 : Int) - target.denominator.log2 - 1
  target.climb 4 ((bits * 30103).fdiv 100000 - 1)

def onPlace (tie : Tie) (target : Target) (place : Int) : Option Nat :=
  let (value, lower, upper, step) := target.onGrid place
  let below := value / step
  let inside (candidate : Nat) : Bool :=
    if target.closed then lower ≤ candidate * step && candidate * step ≤ upper
    else lower < candidate * step && candidate * step < upper
  match inside below, inside (below + 1) with
  | false, false => none
  | true, false => some below
  | false, true => some (below + 1)
  | true, true =>
      match compare (value * 2) ((below * 2 + 1) * step) with
      | .lt => some below
      | .gt => some (below + 1)
      | .eq =>
          match tie with
          | .up => some (below + 1)
          | .even => some (if below % 2 = 0 then below else below + 1)

def search (tie : Tie) (target : Target) : Nat → Int → Nat × Int
  | 0, place => (target.value * Nat.pow 10 (-place).toNat / target.denominator, place)
  | finer + 1, place =>
      match target.onPlace tie place with
      | some digits => (digits, place)
      | none => target.search tie finer (place - 1)

end Target

def stripZeros (digits : Nat) (place : Int) : Nat × Int :=
  if _multiple : digits ≠ 0 ∧ digits % 10 = 0 then stripZeros (digits / 10) (place + 1)
  else (digits, place)
termination_by digits

/-- The digits and the place of the last one, for a mantissa that is not
zero. Seventeen digits are always enough. -/
def digits (tie : Tie) (number : Binary) : Nat × Int :=
  let target := Target.ofBinary number
  let (shortest, place) := target.search tie 17 target.leadingPlace
  stripZeros shortest place

example : digits .up ⟨false, 3602879701896397, -55⟩ = (1, -1) := by decide +kernel

example : digits .up ⟨false, 1, -1074⟩ = (5, -324) := by decide +kernel

end Photoplot.Shortest
