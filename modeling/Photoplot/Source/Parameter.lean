import Photoplot.Source.Command
import Photoplot.Error

/-! # Parameter commands

The commands of a parameter block: the coordinate format, the units, aperture
definitions and the polarity. Attributes and other parameters carry no geometry
and give no command. -/

namespace Photoplot.Parameter

/-! ## Format

A format is `FS`, flags, `X` with two digits and `Y` with two digits. -/

/-- A flag that is not known changes nothing; of two that exclude each other the
later one counts. -/
def applyFlag (format : CoordinateFormat) (flag : Char) : CoordinateFormat :=
  match flag with
  | 'L' => { format with zeros := .leading }
  | 'T' => { format with zeros := .trailing }
  | 'A' => { format with addressing := .absolute }
  | 'I' => { format with addressing := .incremental }
  | _ => format

def readCounts (axis : Char) (digits : Text) : Except ReadError DigitCounts :=
  match digits with
  | [integer, decimal] =>
      if integer.isDigit && decimal.isDigit then
        .ok ⟨Digits.value [integer], Digits.value [decimal]⟩
      else .error (.formatDigits axis digits)
  | _ => .error (.formatDigits axis digits)

def readFormat (text : Text) : Except ReadError CoordinateFormat := do
  let some (flags, rest) := text.cutAt 'X' | .error .missingX
  let some (xDigits, rest) := rest.cutAt 'Y' | .error .missingY
  let x ← readCounts 'X' xDigits
  let y ← readCounts 'Y' (Text.spanDigits rest).1
  return { flags.foldl applyFlag .standard with x, y }

example : readFormat ['L', 'I', 'X', '2', '4', 'Y', '3', '6'] =
    .ok ⟨.leading, .incremental, ⟨2, 4⟩, ⟨3, 6⟩⟩ := by rfl

/-! ## Apertures

A definition is `AD`, `D` with a code, the name of a shape and, after a comma,
numbers separated by `X`. -/

variable {K : Type} [Scalar K]

def readParameter (text : Text) : Except ReadError K :=
  match Scalar.read? text.trim with
  | some value => if Scalar.isFinite value then .ok value
      else .error (.apertureParameter text)
  | none => .error (.apertureParameter text)

def readParameters (text : Text) : Except ReadError (List K) :=
  if text.isEmpty then .ok [] else (text.pieces 'X').mapM readParameter

/-- Numbers after those that a shape needs are ignored. -/
def shapeOf (name : Text) (parameters : List K) : Except ReadError (ApertureShape K) :=
  match name, parameters with
  | ['C'], diameter :: _ => .ok (.circle diameter)
  | ['C'], _ => .error (.tooFewParameters name 1 parameters.length)
  | ['R'], width :: height :: _ => .ok (.rectangle width height)
  | ['R'], _ => .error (.tooFewParameters name 2 parameters.length)
  | ['O'], width :: height :: _ => .ok (.obround width height)
  | ['O'], _ => .error (.tooFewParameters name 2 parameters.length)
  | ['P'], diameter :: vertices :: rest =>
      let count := Scalar.round vertices
      if 3.0 ≤ count ∧ count ≤ 12.0 then
        .ok (.polygon diameter (Scalar.ceilNat count) (rest.headD 0.0))
      else .error (.vertexCount (Scalar.text count))
  | ['P'], _ => .error (.tooFewParameters name 2 parameters.length)
  | [], _ => .error .emptyShapeName
  | _, _ => .ok (.custom name parameters)

def readShape (text : Text) : Except ReadError (ApertureShape K) := do
  let (name, written) := (text.cutAt ',').getD (text, [])
  shapeOf name (← readParameters written)

def readAperture (content : Text) : Except ReadError (Command K) :=
  match content.drop 2 with
  | 'D' :: rest =>
      let (digits, shape) := Text.spanDigits rest
      if shape.isEmpty then .error (.apertureWithoutShape rest)
      else
        match Digits.readCode digits with
        | none => .error (.apertureCode rest)
        | some code =>
            if code < 10 then .error (.reservedAperture code)
            else (readShape shape).map (.defineAperture code)
  | _ => .error (.apertureLetter content)

/-! ## All parameters -/

def read (content : Text) : Except ReadError (Option (Command K)) :=
  if "FS".toList.isPrefixOf content then
    (readFormat (content.drop 2)).map fun format => some (.format format)
  else if content = "MOMM".toList then .ok (some (.units .millimeters))
  else if content = "MOIN".toList then .ok (some (.units .inches))
  else if content = "LPD".toList then .ok (some (.polarity .dark))
  else if content = "LPC".toList then .ok (some (.polarity .clear))
  else if "MO".toList.isPrefixOf content then .error (.unknownUnit content)
  else if "AD".toList.isPrefixOf content then (readAperture content).map some
  else .ok none

end Photoplot.Parameter
