import Photoplot.Number.Digits
import Photoplot.Text.Utf8

/-! # Tokens of JSON documents

A document is taken as bytes, each seen as the character with its code; that is
enough to tell the tokens apart, and the contents of a string are put together
as bytes again. -/

namespace Photoplot.Json

/-- A number by its parts. Without a fraction or an exponent the part is
missing; the exponent has its sign apart. -/
structure Numeric where
  negative : Bool
  whole : Text
  fraction : Option Text
  exponent : Option (Bool × Text)
  deriving DecidableEq, Repr

/-- The contents of a string are missing when its bytes or its escapes spell no
text. -/
inductive Token
  | openObject
  | closeObject
  | openArray
  | closeArray
  | colon
  | comma
  | null
  | bool (value : Bool)
  | numeric (value : Numeric)
  | string (contents : Option (List UInt8))
  deriving DecidableEq, Repr

def isBlank (c : Char) : Bool := c = ' ' || c = '\n' || c = '\t' || c = '\r'

/-! ## Numbers -/

def digitRun? (text : Text) : Option (Text × Text) :=
  let (digits, rest) := Text.spanDigits text
  if digits.isEmpty then none else some (digits, rest)

def readFraction (text : Text) : Option (Option Text × Text) :=
  match text with
  | '.' :: rest => (digitRun? rest).map fun (digits, rest) => (some digits, rest)
  | _ => some (none, text)

def readExponent (text : Text) : Option (Option (Bool × Text) × Text) :=
  match text with
  | mark :: rest =>
      if mark = 'e' || mark = 'E' then
        let (negative, unsigned) := Digits.splitSign rest
        (digitRun? unsigned).map fun (digits, rest) => (some (negative, digits), rest)
      else some (none, text)
  | [] => some (none, text)

def readWhole (text : Text) : Option (Text × Text) :=
  match text with
  | '0' :: rest => some (['0'], rest)
  | _ => digitRun? text

def readNumeric (text : Text) : Option (Numeric × Text) := do
  let (negative, unsigned) := match text with
    | '-' :: rest => (true, rest)
    | _ => (false, text)
  let (whole, rest) ← readWhole unsigned
  let (fraction, rest) ← readFraction rest
  let (exponent, rest) ← readExponent rest
  return (⟨negative, whole, fraction, exponent⟩, rest)

/-! ## Strings -/

def hexDigit? (c : Char) : Option Nat :=
  if c.isDigit then some (c.toNat - '0'.toNat)
  else if 'a' ≤ c ∧ c ≤ 'f' then some (c.toNat - 'a'.toNat + 10)
  else if 'A' ≤ c ∧ c ≤ 'F' then some (c.toNat - 'A'.toNat + 10)
  else none

def hexCode? (digits : List Char) : Option Nat :=
  digits.foldlM (fun code c => (hexDigit? c).map (code * 16 + ·)) 0

/-- A part of a string: a byte as it stands, or a unit of sixteen bits. -/
inductive Unit16
  | byte (value : UInt8)
  | code (value : Nat)
  deriving DecidableEq, Repr

def shortEscape? : Char → Option UInt8
  | '"' => some 0x22
  | '\\' => some 0x5C
  | '/' => some 0x2F
  | 'b' => some 0x08
  | 'f' => some 0x0C
  | 'n' => some 0x0A
  | 'r' => some 0x0D
  | 't' => some 0x09
  | _ => none

def readUnits : Text → Option (List Unit16 × Text)
  | [] => none
  | '"' :: rest => some ([], rest)
  | '\\' :: 'u' :: a :: b :: c :: d :: rest => do
      let code ← hexCode? [a, b, c, d]
      let (units, rest) ← readUnits rest
      return (.code code :: units, rest)
  | '\\' :: mark :: rest => do
      let byte ← shortEscape? mark
      let (units, rest) ← readUnits rest
      return (.byte byte :: units, rest)
  | c :: rest =>
      if c.toNat < 0x20 || c = '\\' then none
      else do
        let (units, rest) ← readUnits rest
        return (.byte (UInt8.ofNat c.toNat) :: units, rest)

def unitBytes : List Unit16 → Option (List UInt8)
  | [] => some []
  | .byte value :: rest => (unitBytes rest).map (value :: ·)
  | .code high :: rest =>
      if high < 0xD800 ∨ 0xDFFF < high then
        (unitBytes rest).map (Utf8.encode [Char.ofNat high] ++ ·)
      else
        match rest with
        | .code low :: rest =>
            if high < 0xDC00 ∧ 0xDC00 ≤ low ∧ low ≤ 0xDFFF then
              let point := 0x10000 + (high - 0xD800) * 0x400 + (low - 0xDC00)
              (unitBytes rest).map (Utf8.encode [Char.ofNat point] ++ ·)
            else none
        | _ => none

def contents (units : List Unit16) : Option (List UInt8) :=
  (unitBytes units).filter Utf8.isValid

/-! ## Documents -/

def word? (text : Text) : Option (Token × Text) :=
  match text with
  | 'n' :: 'u' :: 'l' :: 'l' :: rest => some (.null, rest)
  | 't' :: 'r' :: 'u' :: 'e' :: rest => some (.bool true, rest)
  | 'f' :: 'a' :: 'l' :: 's' :: 'e' :: rest => some (.bool false, rest)
  | _ => none

def next? (text : Text) : Option (Token × Text) :=
  match text with
  | '\x7b' :: rest => some (.openObject, rest)
  | '\x7d' :: rest => some (.closeObject, rest)
  | '[' :: rest => some (.openArray, rest)
  | ']' :: rest => some (.closeArray, rest)
  | ':' :: rest => some (.colon, rest)
  | ',' :: rest => some (.comma, rest)
  | '"' :: rest => (readUnits rest).map fun (units, rest) =>
      (.string (contents units), rest)
  | _ =>
      match word? text with
      | some found => some found
      | none => (readNumeric text).map fun (value, rest) => (.numeric value, rest)

def scan : Nat → Text → Option (List Token)
  | 0, text => if text.isEmpty then some [] else none
  | steps + 1, text =>
      match text.dropWhile isBlank with
      | [] => some []
      | c :: rest => do
          let (token, rest) ← next? (c :: rest)
          let tokens ← scan steps rest
          return token :: tokens

def tokens (document : List UInt8) : Option (List Token) :=
  let text := document.map fun byte => Char.ofNat byte.toNat
  scan text.length text

end Photoplot.Json
