import Photoplot.Source.Command
import Photoplot.Warning

/-! # Words

A word outside of parameter blocks: a mode, the end of the file, the selection
of an aperture, or an operation with its coordinate fields. A mode may stand in
front of any of the others. -/

namespace Photoplot.Word

variable {K : Type} [Scalar K]

def modeCommand? (code : Nat) : Option (Command K) :=
  match code with
  | 1 => some .linear
  | 2 => some .clockwise
  | 3 => some .counterclockwise
  | 36 => some .beginRegion
  | 37 => some .endRegion
  | 70 => some (.units .inches)
  | 71 => some (.units .millimeters)
  | 74 => some .singleQuadrant
  | 75 => some .multiQuadrant
  | _ => none

/-- Two codes that used to announce the selection of an aperture. -/
def announcesSelect (code : Nat) : Bool := code = 54 || code = 55

def modeCommands (code : Nat) : Noted (List (Command K)) := do
  match modeCommand? code with
  | some command => return [command]
  | none =>
      if !announcesSelect code then Noted.note (.unsupportedGCode code)
      return []

/-! ## Fields -/

def isFieldCharacter (c : Char) : Bool :=
  c.isDigit || c = '+' || c = '-' || c = '.'

def cutFields (text : Text) : List (Char × Text) × Text :=
  match text with
  | [] => ([], [])
  | letter :: rest =>
      if letter.isAlpha then
        let (fields, remainder) := cutFields (rest.dropWhile isFieldCharacter)
        ((letter.toUpper, rest.takeWhile isFieldCharacter) :: fields, remainder)
      else ([], text)
termination_by text.length
decreasing_by
  have := (List.dropWhile_suffix isFieldCharacter (l := rest)).length_le
  simp only [List.length_cons]
  omega

structure Fields (K : Type) where
  coordinates : CoordinateFields K
  code : Option Nat
  deriving DecidableEq, Repr

def setField (word : Text) (fields : Fields K) (field : Char × Text) :
    Except ReadError (Fields K) :=
  let coordinate : Except ReadError (RawCoordinate K) :=
    match RawCoordinate.read? field.2 with
    | some raw => .ok raw
    | none => .error (.coordinate word)
  match field.1 with
  | 'X' => coordinate.map fun raw => { fields with coordinates.x := some raw }
  | 'Y' => coordinate.map fun raw => { fields with coordinates.y := some raw }
  | 'I' => coordinate.map fun raw => { fields with coordinates.i := some raw }
  | 'J' => coordinate.map fun raw => { fields with coordinates.j := some raw }
  | 'D' =>
      match Digits.readCode field.2 with
      | some code => .ok { fields with code := some code }
      | none => .error (.dCode word)
  | letter => .error (.unexpectedLetter letter word)

def readFields (word text : Text) : Except ReadError (Fields K) := do
  let (cut, remainder) := cutFields text
  let fields ← cut.foldlM (setField word) ⟨.none, none⟩
  if remainder.isEmpty then return fields else .error (.unexpectedText word)

/-- Codes from ten up select an aperture and stand alone; the others are
actions. A word without any field does nothing. -/
def fieldCommands (word : Text) (fields : Fields K) :
    Except ReadError (List (Command K)) :=
  let operation (action : Option Action) : Except ReadError (List (Command K)) :=
    .ok [.operation fields.coordinates action]
  match fields.code with
  | none => if fields.coordinates.isEmpty then .ok [] else operation none
  | some 1 => operation (some .draw)
  | some 2 => operation (some .move)
  | some 3 => operation (some .flash)
  | some code =>
      if 10 ≤ code then
        if fields.coordinates.isEmpty then .ok [.select code]
        else .error (.coordinatesWithSelect word)
      else .error (.reservedAction code)

/-! ## Whole words -/

def readBody (word text : Text) : Except ReadError (List (Command K)) :=
  match text with
  | 'M' :: code =>
      match Digits.readCode code with
      | some code => .ok (if code ≤ 2 then [.endOfFile] else [])
      | none => .error (.mCode word)
  | _ => (readFields word text).bind (fieldCommands word)

def read (word : Text) : Noted (Except ReadError (List (Command K))) :=
  match word with
  | 'G' :: rest =>
      let (digits, body) := Text.spanDigits rest
      match Digits.readCode digits with
      | none => return .error (.gCode word)
      | some code => do
          let mode ← modeCommands code
          if body.isEmpty then return .ok mode
          else return (readBody word body).map (mode ++ ·)
  | _ => return readBody word word

end Photoplot.Word
