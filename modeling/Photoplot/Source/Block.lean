import Photoplot.Text.Basic

/-! # Blocks

A layer is a sequence of commands, each ended by a star. Commands between two
percent signs form one parameter block; all others are words of their own. Line
breaks mean nothing, and comments are dropped here. -/

namespace Photoplot

inductive Block
  | parameter (commands : List Text)
  | word (command : Text)
  deriving DecidableEq, Repr

namespace Block

def isComment (command : Text) : Bool :=
  ['G', '0', '4'].isPrefixOf command || ['G', '4', ' '].isPrefixOf command ||
    command = ['G', '4']

def command? (piece : Text) : Option Text :=
  let trimmed := piece.trim
  if trimmed.isEmpty || isComment trimmed then none else some trimmed

def ofGroup (commands : List Text) : List Block :=
  if commands.isEmpty then [] else [.parameter commands]

/-! The scan of a text keeps everything in reverse, the latest first. -/

structure Scan where
  blocks : List Block
  /-- The commands of the open parameter block. -/
  group : Option (List Text)
  /-- The characters since the last star or percent sign. -/
  pending : Text
  deriving DecidableEq, Repr

namespace Scan

def start : Scan := ⟨[], none, []⟩

def endCommand (scan : Scan) : Scan :=
  let command := command? scan.pending.reverse
  match scan.group with
  | some commands => ⟨scan.blocks, some (command.toList ++ commands), []⟩
  | none => ⟨(command.map Block.word).toList ++ scan.blocks, none, []⟩

def endGroup (scan : Scan) : Scan :=
  match scan.group with
  | some commands => ⟨ofGroup commands.reverse ++ scan.blocks, none, scan.pending⟩
  | none => scan

def percent (scan : Scan) : Scan :=
  let ended := scan.endCommand
  match ended.group with
  | some _ => ended.endGroup
  | none => ⟨ended.blocks, some [], []⟩

def step (scan : Scan) (c : Char) : Scan :=
  if c = '%' then scan.percent
  else if c = '*' then scan.endCommand
  else if c = '\n' || c = '\r' then scan
  else ⟨scan.blocks, scan.group, c :: scan.pending⟩

def finish (scan : Scan) : List Block := scan.endCommand.endGroup.blocks.reverse

end Scan

def scan (text : Text) : List Block := (text.foldl Scan.step Scan.start).finish

example : scan "G04 x*%FSLA*MOMM*%D10*".toList =
    [.parameter ["FSLA".toList, "MOMM".toList], .word "D10".toList] := by decide +kernel

example : scan "X1\nY2".toList = [.word "X1Y2".toList] := by decide +kernel

end Block

end Photoplot
