import Photoplot.Number.Digits
import Photoplot.Number.Shortest

/-! # Written numbers

Two layouts of the shortest digits. The plain one is always positional and has
no fraction when there is none. The other one is that of JSON documents: a
number there always shows a fraction or an exponent, and has an exponent when
its leading digit is far from the point. -/

namespace Photoplot.Layout

/-- Digits with the point where it belongs; the last digit counts `10 ^ place`. -/
def positional (digits : Text) : (place : Int) → Text
  | .ofNat power => digits ++ List.replicate power '0'
  | .negSucc power =>
      let decimals := power + 1
      if decimals < digits.length then
        digits.take (digits.length - decimals) ++
          '.' :: digits.drop (digits.length - decimals)
      else
        '0' :: '.' :: List.replicate (decimals - digits.length) '0' ++ digits

example : positional ['1', '2'] (-1) = ['1', '.', '2'] := by decide

example : positional ['1', '2'] (-3) = ['0', '.', '0', '1', '2'] := by decide

example : positional ['1', '2'] 1 = ['1', '2', '0'] := by decide

def scientific (digits : Text) (place : Int) : Text :=
  let exponent := match place + digits.length - 1 with
    | .ofNat power => 'e' :: '+' :: Digits.ofNat power
    | .negSucc power => 'e' :: '-' :: Digits.ofNat (power + 1)
  match digits with
  | [] => exponent
  | [digit] => digit :: exponent
  | digit :: rest => digit :: '.' :: rest ++ exponent

example : scientific ['1', '2'] 15 = ['1', '.', '2', 'e', '+', '1', '6'] := by
  decide +kernel

example : scientific ['1'] (-6) = ['1', 'e', '-', '6'] := by decide +kernel

def signed (negative : Bool) (text : Text) : Text :=
  if negative then '-' :: text else text

/-- The plain layout. Of two equally near decimals it takes the upper one. -/
def plain (x : Float) : Text :=
  match Binary.ofFloat? x with
  | none => if x < 0 then "-inf".toList else if 0 < x then "inf".toList else "NaN".toList
  | some number =>
      signed number.negative <|
        if number.mantissa = 0 then ['0']
        else
          let (digits, place) := Shortest.digits .up number
          positional (Digits.ofNat digits) place

def document (x : Float) : Text :=
  match Binary.ofFloat? x with
  | none => "null".toList
  | some number =>
      signed number.negative <|
        if number.mantissa = 0 then "0.0".toList
        else
          let (shortest, place) := Shortest.digits .even number
          let digits := Digits.ofNat shortest
          let leading := place + digits.length
          if leading ≤ -5 ∨ 16 < leading then scientific digits place
          else
            match place with
            | .ofNat _ => positional digits place ++ ['.', '0']
            | .negSucc _ => positional digits place

end Photoplot.Layout
