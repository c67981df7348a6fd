import Photoplot.Template.Basic
import Photoplot.Template.ExprReader
import Photoplot.Warning

/-! # Reading aperture macros

Each line of a body is an assignment `$n=expression`, or a primitive: a code and
its fields, separated by commas. Lines that cannot be read are noted and left
out. -/

namespace Photoplot.Template

variable {K : Type} [Scalar K]

def readAssignment (text : Text) : Except ReadError (Statement K) :=
  match text.cutAt '=' with
  | none => .error .assignmentWithoutEquals
  | some (name, expression) =>
      match Digits.readCode name.trim with
      | none => .error (.assignedVariable name)
      | some index => (Expr.read expression).map (.assign index)

/-! ## Primitives -/

def tooFew {α : Type} (kind : PrimitiveKind) (needed : Nat) (fields : List (Expr K)) :
    Except ReadError α :=
  .error (.tooFewFields kind needed fields.length)

def readCircle : List (Expr K) → Except ReadError (Statement K)
  | exposure :: diameter :: x :: y :: rest =>
      .ok (.draw exposure (.circle diameter (x, y) rest.head?))
  | fields => tooFew .circle 4 fields

def readLine : List (Expr K) → Except ReadError (Statement K)
  | exposure :: width :: x :: y :: endX :: endY :: rotation :: _ =>
      .ok (.draw exposure (.line width (x, y) (endX, endY) rotation))
  | fields => tooFew .vectorLine 7 fields

def readRectangle : List (Expr K) → Except ReadError (Statement K)
  | exposure :: width :: height :: x :: y :: rotation :: _ =>
      .ok (.draw exposure (.rectangle width height (x, y) rotation))
  | fields => tooFew .centerRectangle 6 fields

def readPolygon : List (Expr K) → Except ReadError (Statement K)
  | exposure :: vertices :: x :: y :: diameter :: rotation :: _ =>
      .ok (.draw exposure (.polygon vertices (x, y) diameter rotation))
  | fields => tooFew .polygon 6 fields

/-! An outline lists its vertices, the first one again at the end, and then its
rotation. A vertex count that is constant has to agree with the fields that are
there; otherwise the fields tell the count. -/

def pairUp : List (Expr K) → List (ExprPair K)
  | x :: y :: rest => (x, y) :: pairUp rest
  | _ => []

def pairCount (declared : Expr K) (present : Nat) : Except ReadError Nat :=
  let available := (present - 1) / 2
  match declared.eval .none with
  | some count =>
      if 0.0 ≤ count then
        let rounded := Scalar.round count
        if Scalar.ofNat available < rounded + 1.0 then
          .error (.outlineVertices (Scalar.text rounded) present)
        else .ok (Scalar.ceilNat rounded + 1)
      else .ok available
  | none => .ok available

def readOutline : List (Expr K) → Except ReadError (Statement K)
  | exposure :: declared :: fields => do
      let pairs ← pairCount declared fields.length
      if pairs < 3 then .error .outlineTooSmall
      else
        match fields.drop (pairs * 2) with
        | rotation :: _ =>
            return .draw exposure (.outline (pairUp (fields.take (pairs * 2))) rotation)
        | [] => .error .outlineFields
  | _ => .error .outlineFields

/-- Fields of a primitive that is not supported are not looked at. -/
def readPrimitive (code : Nat) (fields : List Text) : Except ReadError (Statement K) :=
  match code with
  | 1 => (fields.mapM Expr.read).bind readCircle
  | 2 => (fields.mapM Expr.read).bind readLine
  | 20 => (fields.mapM Expr.read).bind readLine
  | 21 => (fields.mapM Expr.read).bind readRectangle
  | 4 => (fields.mapM Expr.read).bind readOutline
  | 5 => (fields.mapM Expr.read).bind readPolygon
  | code => .ok (.unsupported code)

/-! ## Bodies -/

def readStatement (line : Text) : Except ReadError (Statement K) :=
  match line with
  | '$' :: assignment => readAssignment assignment
  | _ =>
      let fields := line.pieces ','
      let code := (fields.headD []).trim
      match Digits.readCode code with
      | none => .error (.primitiveCode code)
      | some code => readPrimitive code fields.tail

def isComment (line : Text) : Bool := line = ['0'] || ['0', ' '].isPrefixOf line

def readBodyLine (name line : Text) : Noted (List (Statement K)) := do
  let line := line.trim
  if line.isEmpty || isComment line then return []
  else
    match readStatement line with
    | .error error =>
        Noted.note (.statementSkipped name line error)
        return []
    | .ok (.unsupported code) =>
        Noted.note (.primitiveUnsupported name code)
        return [.unsupported code]
    | .ok statement => return [statement]

def read (name : Text) (body : List Text) : Noted (Template K) := do
  let statements ← Noted.concat (body.map (readBodyLine name))
  return ⟨name, statements⟩

end Photoplot.Template
