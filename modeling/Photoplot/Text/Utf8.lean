import Photoplot.Text.Basic

/-! # UTF-8

Bytes are read leniently: where they spell no character, the longest sequence
that could have been the beginning of one is replaced by one mark. -/

namespace Photoplot.Utf8

def replacement : Char := Char.ofNat 0xFFFD

/-- The form of a character by its first byte: the first byte's share of the code
point, the bounds of the second byte, and how many bytes follow it. -/
structure Form where
  bits : Nat
  low : Nat
  high : Nat
  more : Nat
  deriving DecidableEq, Repr

/-- The first byte of a character of several bytes. The bounds rule out code
points with a shorter form, surrogates and those that are too large. -/
def form? (byte : Nat) : Option Form :=
  if 0xC2 ≤ byte ∧ byte ≤ 0xDF then some ⟨byte - 0xC0, 0x80, 0xBF, 0⟩
  else if byte = 0xE0 then some ⟨0, 0xA0, 0xBF, 1⟩
  else if byte = 0xED then some ⟨0xD, 0x80, 0x9F, 1⟩
  else if 0xE1 ≤ byte ∧ byte ≤ 0xEF then some ⟨byte - 0xE0, 0x80, 0xBF, 1⟩
  else if byte = 0xF0 then some ⟨0, 0x90, 0xBF, 2⟩
  else if 0xF1 ≤ byte ∧ byte ≤ 0xF3 then some ⟨byte - 0xF0, 0x80, 0xBF, 2⟩
  else if byte = 0xF4 then some ⟨4, 0x80, 0x8F, 2⟩
  else none

/-- A character under way: what is known of its code point, the bounds of the
next byte and how many bytes come behind that one. -/
abbrev Partial := Option Form

/-- The characters of a sequence of bytes, with nothing for every place where
they spell none. -/
def glyphs (opened : Partial) : List UInt8 → List (Option Char)
  | [] => if opened.isSome then [none] else []
  | byte :: rest =>
      let code := byte.toNat
      let fresh : List (Option Char) :=
        if code < 0x80 then some (Char.ofNat code) :: glyphs none rest
        else
          match form? code with
          | some form => glyphs (some form) rest
          | none => none :: glyphs none rest
      match opened with
      | none => fresh
      | some form =>
          if form.low ≤ code ∧ code ≤ form.high then
            let bits := form.bits * 64 + (code - 0x80)
            match form.more with
            | 0 => some (Char.ofNat bits) :: glyphs none rest
            | more + 1 => glyphs (some ⟨bits, 0x80, 0xBF, more⟩) rest
          else none :: fresh

def decode (bytes : List UInt8) : Text :=
  (glyphs none bytes).map fun glyph => glyph.getD replacement

def isValid (bytes : List UInt8) : Bool := (glyphs none bytes).all Option.isSome

example : decode [0x61, 0xC3, 0xA9, 0xE2, 0x82, 0x62, 0xFF] =
    ['a', 'é', replacement, 'b', replacement] := by decide +kernel

def encode (text : Text) : List UInt8 := (String.ofList text).toUTF8.toList

end Photoplot.Utf8
