/-! # Text

A text is the list of its characters. Everything that reads a layer or a path
works on this view; strings appear only where a message or a file is handed
over. -/

namespace Photoplot

abbrev Text := List Char

namespace Text

/-! ## Blanks

A blank is a character with the Unicode property White_Space. -/

def isBlank (c : Char) : Bool :=
  let code := c.toNat
  (9 ≤ code && code ≤ 13) || code == 32 || code == 0x85 || code == 0xA0 ||
    code == 0x1680 || (0x2000 ≤ code && code ≤ 0x200A) || code == 0x2028 ||
    code == 0x2029 || code == 0x202F || code == 0x205F || code == 0x3000

def trim (text : Text) : Text :=
  ((text.dropWhile isBlank).reverse.dropWhile isBlank).reverse

example : trim [' ', 'a', ' ', 'b', '\t'] = ['a', ' ', 'b'] := rfl

/-! ## Cutting -/

/-- The pieces between the occurrences of a separator. A text without one is
its own single piece, so there is always at least one. -/
def pieces (separator : Char) : Text → List Text
  | [] => [[]]
  | c :: rest =>
      if c = separator then
        [] :: pieces separator rest
      else
        match pieces separator rest with
        | [] => [[c]]
        | first :: others => (c :: first) :: others

example : pieces ',' ['a', ',', ',', 'b'] = [['a'], [], ['b']] := rfl

example : pieces ',' [] = [[]] := rfl

def cutAt (separator : Char) (text : Text) : Option (Text × Text) :=
  match text.dropWhile (· != separator) with
  | [] => none
  | _ :: after => some (text.takeWhile (· != separator), after)

example : cutAt '=' ['1', '=', '2', '='] = some (['1'], ['2', '=']) := rfl

example : cutAt '=' ['1'] = none := rfl

/-! ## Digits -/

def spanDigits (text : Text) : Text × Text :=
  (text.takeWhile Char.isDigit, text.dropWhile Char.isDigit)

theorem spanDigits_append (text : Text) :
    (spanDigits text).1 ++ (spanDigits text).2 = text :=
  List.takeWhile_append_dropWhile

def join (separator : Text) (texts : List Text) : Text :=
  separator.intercalate texts

end Text

end Photoplot
