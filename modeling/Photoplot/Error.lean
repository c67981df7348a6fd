import Photoplot.Number.Digits
import Photoplot.Text.Quoted

/-! # Causes of failure

Everything that can be wrong with a command, an expression or a layer, and the
one place where the causes are put into words. -/

namespace Photoplot

inductive PrimitiveKind
  | circle
  | vectorLine
  | centerRectangle
  | polygon
  deriving DecidableEq, Repr

def PrimitiveKind.name : PrimitiveKind → String
  | .circle => "circle"
  | .vectorLine => "vector line"
  | .centerRectangle => "center rectangle"
  | .polygon => "polygon"

inductive ReadError
  -- format and units
  | missingX
  | missingY
  | formatDigits (axis : Char) (digits : Text)
  | unknownUnit (content : Text)
  -- aperture definitions
  | apertureLetter (content : Text)
  | apertureWithoutShape (rest : Text)
  | apertureCode (rest : Text)
  | reservedAperture (code : Nat)
  | apertureParameter (parameter : Text)
  | tooFewParameters (kind : Text) (needed given : Nat)
  | vertexCount (count : Text)
  | emptyShapeName
  -- words
  | gCode (word : Text)
  | mCode (word : Text)
  | unexpectedText (word : Text)
  | coordinate (word : Text)
  | dCode (word : Text)
  | unexpectedLetter (letter : Char) (word : Text)
  | coordinatesWithSelect (word : Text)
  | reservedAction (code : Nat)
  -- expressions
  | emptyExpression
  | unexpectedTokens (expression : Text)
  | variableNumber (expression : Text)
  | number (digits : Text)
  | unexpectedCharacter (c : Char) (expression : Text)
  | missingParenthesis
  | unexpectedEnd
  -- aperture macros
  | assignmentWithoutEquals
  | assignedVariable (name : Text)
  | primitiveCode (code : Text)
  | tooFewFields (kind : PrimitiveKind) (needed given : Nat)
  | outlineFields
  | outlineVertices (declared : Text) (present : Nat)
  | outlineTooSmall
  -- layers
  | noTerminator
  | noCommands
  deriving DecidableEq, Repr

namespace ReadError

private def shown (text : Text) : String := String.ofList text

private def counted (number : Nat) : String := String.ofList (Digits.ofNat number)

private def quote (text : Text) : String := String.ofList text.quoted

def reason : ReadError → String
  | missingX => "FS: missing X"
  | missingY => "FS: missing Y"
  | formatDigits axis digits =>
      "FS: invalid " ++ shown [axis] ++ " format digits: " ++ quote digits
  | unknownUnit content => "unknown unit: " ++ shown content
  | apertureLetter content => "AD: expected D in " ++ shown content
  | apertureWithoutShape rest => "AD: no shape in: " ++ shown rest
  | apertureCode rest => "AD: bad aperture code: " ++ shown rest
  | reservedAperture code => "AD: aperture code D" ++ counted code ++ " is reserved"
  | apertureParameter parameter => "AD: bad param: " ++ shown parameter
  | tooFewParameters kind needed given =>
      "AD " ++ shown kind ++ ": need " ++ counted needed ++
        " params, got " ++ counted given
  | vertexCount count => "AD P: vertex count " ++ shown count ++ " out of range"
  | emptyShapeName => "AD: empty shape name"
  | gCode word => "bad G-code in: " ++ shown word
  | mCode word => "bad M-code in: " ++ shown word
  | unexpectedText word => "unexpected text in: " ++ shown word
  | coordinate word => "bad coord in: " ++ shown word
  | dCode word => "bad D-code in: " ++ shown word
  | unexpectedLetter letter word =>
      "unexpected '" ++ shown [letter] ++ "' in: " ++ shown word
  | coordinatesWithSelect word => "coordinates with aperture select in: " ++ shown word
  | reservedAction code => "reserved D-code D" ++ counted code
  | emptyExpression => "AM expr: empty field"
  | unexpectedTokens expression =>
      "AM expr: unexpected tokens after expression: " ++ shown expression
  | variableNumber expression => "AM expr: bad variable in: " ++ shown expression
  | number digits => "AM expr: bad number: " ++ shown digits
  | unexpectedCharacter c expression =>
      "AM expr: unexpected char '" ++ shown [c] ++ "' in: " ++ shown expression
  | missingParenthesis => "AM expr: missing closing paren"
  | unexpectedEnd => "AM expr: unexpected end of expression"
  | assignmentWithoutEquals => "AM: assignment without '='"
  | assignedVariable name => "AM: bad variable $" ++ shown name
  | primitiveCode code => "AM: bad primitive code: " ++ shown code
  | tooFewFields kind needed given =>
      "AM " ++ kind.name ++ ": need " ++ counted needed ++
        " params, got " ++ counted given
  | outlineFields => "AM outline: missing fields"
  | outlineVertices declared present =>
      "AM outline: " ++ shown declared ++ " vertices declared, " ++ counted present ++
        " fields present"
  | outlineTooSmall => "AM outline: too few vertices"
  | noTerminator => "Not a Gerber file (no * terminator)"
  | noCommands => "No Gerber commands found"

def message (error : ReadError) : String := "parse error: " ++ error.reason

end ReadError

inductive CutError
  /-- The plate has no contour with three vertices. -/
  | noUsableContour
  | other (reason : String)
  deriving DecidableEq, Repr

namespace CutError

def reason : CutError → String
  | noUsableContour => "plate has no usable contour"
  | other reason => reason

def message (error : CutError) : String := "boolean operation failed: " ++ error.reason

end CutError

end Photoplot
