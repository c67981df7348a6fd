import Photoplot.Text.Basic
import Photoplot.Text.Hidden

/-! # Quoted text

How a text is shown inside a message: between double quotes, with escapes for
quotes, backslashes and everything that could not be seen. -/

namespace Photoplot.Text

def hexDigits (number : Nat) : Text := Nat.toDigits 16 number

def escapedCode (c : Char) : Text :=
  ['\\', 'u', '\x7b'] ++ hexDigits c.toNat ++ ['\x7d']

def escaped (c : Char) : Text :=
  if c = '\x00' then ['\\', '0']
  else if c = '\t' then ['\\', 't']
  else if c = '\r' then ['\\', 'r']
  else if c = '\n' then ['\\', 'n']
  else if c = '"' || c = '\\' then ['\\', c]
  else if isHidden c then escapedCode c
  else [c]

def quoted (text : Text) : Text := '"' :: text.flatMap escaped ++ ['"']

example : quoted ['a', '"', '\t'] = ['"', 'a', '\\', '"', '\\', 't', '"'] := by
  decide +kernel

end Photoplot.Text
