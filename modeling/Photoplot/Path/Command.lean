import Photoplot.Text.Basic

/-! # Path commands

Path text is a list of commands, each a letter with its operands. It is written
with one space between any two words; it is read in every spelling of the path
grammar, where separators may be left out if the next operand shows its own
start. -/

namespace Photoplot.Path

structure Command where
  letter : Char
  operands : List Text
  deriving DecidableEq, Repr

namespace Command

def words (command : Command) : List Text := [command.letter] :: command.operands

def spell (commands : List Command) : Text :=
  Text.join [' '] (commands.flatMap words)

example :
    spell [⟨'M', [['1'], ['2']]⟩, ⟨'Z', []⟩] = ['M', ' ', '1', ' ', '2', ' ', 'Z'] := rfl

end Command

/-! ## Reading -/

def isLetter (c : Char) : Bool :=
  ['M', 'L', 'H', 'V', 'C', 'S', 'Q', 'T', 'A', 'Z'].contains c.toUpper

def isSeparator (c : Char) : Bool :=
  [' ', ',', '\n', '\r', '\t'].contains c

def isExponentMark (c : Char) : Bool := c = 'e' || c = 'E'

/-- Whether a character begins a new operand, given the characters of the open
one, the last one first. A sign does, unless it belongs to an exponent; a second
point does, unless an exponent came before. -/
def startsOperand (opened : Text) (c : Char) : Bool :=
  if c = '-' || c = '+' then
    match opened with
    | [] => false
    | last :: _ => !isExponentMark last
  else if c = '.' then
    opened.contains '.' && !opened.any isExponentMark
  else false

inductive Token
  | letter (c : Char)
  | operand (text : Text)
  deriving DecidableEq, Repr

def closed (opened : Text) : List Token :=
  if opened.isEmpty then [] else [.operand opened.reverse]

/-- The letters and operands of a text. The operand under way is kept with its
last character first. -/
def tokens (opened : Text) : Text → List Token
  | [] => closed opened
  | c :: rest =>
      if isLetter c then closed opened ++ .letter c :: tokens [] rest
      else if isSeparator c then closed opened ++ tokens [] rest
      else if startsOperand opened c then closed opened ++ tokens [c] rest
      else tokens (c :: opened) rest

def leadingOperands : List Token → List Text
  | .operand text :: rest => text :: leadingOperands rest
  | _ => []

/-- Every letter with the operands behind it. Operands in front of the first
letter have nothing to belong to. -/
def gather : List Token → List Command
  | [] => []
  | .operand _ :: rest => gather rest
  | .letter c :: rest => ⟨c, leadingOperands rest⟩ :: gather rest

def read (text : Text) : List Command := gather (tokens [] text)

example : read ['9', 'M', '1', '-', '2', '.', '5', '.', '5', 'z'] =
    [⟨'M', [['1'], ['-', '2', '.', '5'], ['.', '5']]⟩, ⟨'z', []⟩] := by decide

end Photoplot.Path
