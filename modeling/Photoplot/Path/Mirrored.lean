import Photoplot.Geometry.Box
import Photoplot.Path.Command

/-! # Mirrored paths

The back of a board is seen from the other side: a path is mirrored about the
vertical line through the middle of a box. Absolute `x` values are reflected,
relative ones negated, and arcs turn the other way; all else stays. -/

namespace Photoplot.Path

def arcFields : Nat := 7

def arcSweepField : Nat := 4

def arcEndField : Nat := 5

def isHorizontal (letter : Char) (index : Nat) : Bool :=
  let upper := letter.toUpper
  if ['M', 'L', 'C', 'S', 'Q', 'T'].contains upper then index % 2 == 0
  else if upper = 'H' then true
  else if upper = 'A' then index % arcFields == arcEndField
  else false

def flipFlag (operand : Text) : Text :=
  if operand = ['0'] then ['1'] else if operand = ['1'] then ['0'] else operand

variable {K : Type} [Scalar K]

def mapNumber (change : K → K) (operand : Text) : Text :=
  match Scalar.read? operand with
  | some value => Scalar.coordinate (change value)
  | none => operand

/-- One operand, mirrored. `leading` holds for the first command of a path: if
that is a relative move, its first pair is a point all the same. -/
def mirrorOperand (axis : K) (leading : Bool) (letter : Char) (index : Nat)
    (operand : Text) : Text :=
  if letter.toUpper = 'A' && index % arcFields == arcSweepField then flipFlag operand
  else if !isHorizontal letter index then operand
  else if letter.isLower && !(leading && letter = 'm' && decide (index < 2)) then
    mapNumber (fun offset : K => -offset) operand
  else
    mapNumber (fun x : K => axis + (axis - x)) operand

def mirrorCommand (axis : K) (leading : Bool) (command : Command) : Command :=
  ⟨command.letter,
    command.operands.mapIdx fun index operand =>
      mirrorOperand axis leading command.letter index operand⟩

def mirrorCommands (axis : K) : List Command → List Command
  | [] => []
  | first :: rest => mirrorCommand axis true first :: rest.map (mirrorCommand axis false)

def mirror (path : Text) (box : Box K) : Text :=
  if box.isEmpty then path
  else Command.spell (mirrorCommands box.centerX (read path))

end Photoplot.Path
