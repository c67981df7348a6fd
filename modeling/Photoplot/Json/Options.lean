import Photoplot.Json.Numeric
import Photoplot.Json.Value
import Photoplot.Layer
import Photoplot.Scalar.Binary64

/-! # Options as a JSON document

Options are an object, or an array of their values in order. What is missing
has its standard value; other members do not matter, but a known one must not
occur twice. -/

namespace Photoplot.Options

open Json (Value)

inductive Key
  | invert
  | padding
  | mirror
  deriving DecidableEq, Repr

def Key.name : Key → Text
  | invert => "invert".toList
  | padding => "padding".toList
  | mirror => "mirror".toList

def Key.all : List Key := [.invert, .padding, .mirror]

def Key.ofName? (name : List UInt8) : Option Key :=
  Key.all.find? fun key => Utf8.encode key.name = name

def set? (options : Options Float) (key : Key) (value : Value) : Option (Options Float) :=
  match key, value with
  | .invert, .bool value => some { options with invert := value }
  | .padding, .numeric value => value.toFloat?.map fun margin => { options with margin }
  | .mirror, .bool value => some { options with mirror := value }
  | _, _ => none

def ofMembers (options : Options Float) (seen : List Key) :
    List (Option (List UInt8) × Value) → Option (Options Float)
  | [] => some options
  | (none, _) :: _ => none
  | (some name, value) :: rest =>
      match Key.ofName? name with
      | none => ofMembers options seen rest
      | some key =>
          if seen.contains key then none
          else
            match set? options key value with
            | none => none
            | some options => ofMembers options (key :: seen) rest

def ofElements (elements : List Value) : Option (Options Float) :=
  if Key.all.length < elements.length then none
  else (Key.all.zip elements).foldlM (fun options (key, value) =>
    set? options key value) .standard

def ofValue : Value → Option (Options Float)
  | .object members => ofMembers .standard [] members
  | .array elements => ofElements elements
  | _ => none

def read (document : List UInt8) : Option (Options Float) :=
    (Json.read document).bind ofValue

end Photoplot.Options
