import Photoplot.Json.Geometry
import Photoplot.Json.Options
import Photoplot.Overlay.Fill

/-! # The command line

Arguments are read first; then options, the layer and the outline are taken from
their files, in that order, and the geometry is printed or written. Files appear
here only as a look-up of their bytes. -/

namespace Photoplot.CommandLine

/-! ## Arguments -/

structure Invocation where
  input : Text
  outline : Option Text
  invert : Bool
  padding : Option Float
  mirror : Bool
  config : Option Text
  output : Option Text
  pretty : Bool
  deriving DecidableEq, Repr

structure Draft where
  input : Option Text
  outline : Option Text
  invert : Bool
  padding : Option Float
  mirror : Bool
  config : Option Text
  output : Option Text
  pretty : Bool
  deriving DecidableEq, Repr

def Draft.empty : Draft := ⟨none, none, false, none, false, none, none, false⟩

inductive Switch
  | invert
  | mirror
  | pretty
  deriving DecidableEq, Repr

inductive Setting
  | outline
  | padding
  | config
  | output
  deriving DecidableEq, Repr

namespace Draft

def turnOn? (draft : Draft) : Switch → Option Draft
  | .invert => if draft.invert then none else some { draft with invert := true }
  | .mirror => if draft.mirror then none else some { draft with mirror := true }
  | .pretty => if draft.pretty then none else some { draft with pretty := true }

def set? (draft : Draft) (setting : Setting) (value : Text) : Option Draft :=
  match setting with
  | .outline =>
      if draft.outline.isSome || value.isEmpty then none
      else some { draft with outline := some value }
  | .padding =>
      if draft.padding.isSome then none
      else (Scalar.read? value).map fun padding => { draft with padding := some padding }
  | .config =>
      if draft.config.isSome || value.isEmpty then none
      else some { draft with config := some value }
  | .output =>
      if draft.output.isSome || value.isEmpty then none
      else some { draft with output := some value }

def setInput? (draft : Draft) (value : Text) : Option Draft :=
  if draft.input.isSome || value.isEmpty then none
  else some { draft with input := some value }

def finish? (draft : Draft) : Option Invocation :=
  draft.input.map fun input =>
    ⟨input, draft.outline, draft.invert, draft.padding, draft.mirror, draft.config,
      draft.output, draft.pretty⟩

end Draft

def switch? (name : Text) : Option Switch :=
  if name = "invert".toList then some .invert
  else if name = "mirror".toList then some .mirror
  else if name = "pretty".toList then some .pretty
  else none

def setting? (name : Text) : Option Setting :=
  if name = "outline".toList then some .outline
  else if name = "padding".toList then some .padding
  else if name = "config".toList then some .config
  else if name = "output".toList then some .output
  else none

def isOption (argument : Text) : Bool :=
  match argument with
  | '-' :: _ :: _ => true
  | _ => false

inductive Argument
  | switch (switch : Switch)
  | setting (setting : Setting) (value : Text)
  /-- A setting whose value is the next argument. -/
  | opened (setting : Setting)
  | input (value : Text)
  /-- Options end here. -/
  | dashes
  deriving DecidableEq, Repr

def longArgument? (name : Text) : Option Argument :=
  match name.cutAt '=' with
  | some (name, value) => (setting? name).map fun setting => .setting setting value
  | none =>
      match switch? name with
      | some switch => some (.switch switch)
      | none => (setting? name).map .opened

def shortArgument? (text : Text) : Option Argument :=
  match text with
  | ['o'] => some (.opened .output)
  | 'o' :: '=' :: value => some (.setting .output value)
  | 'o' :: value => some (.setting .output value)
  | _ => none

def argument? (text : Text) : Option Argument :=
  match text with
  | ['-', '-'] => some .dashes
  | '-' :: '-' :: name => longArgument? name
  | '-' :: c :: rest => shortArgument? (c :: rest)
  | _ => some (.input text)

def readDraft (draft : Draft) : List Text → Option Draft
  | [] => some draft
  | [last] =>
      match argument? last with
      | some (.switch switch) => draft.turnOn? switch
      | some (.setting setting value) => draft.set? setting value
      | some (.input value) => draft.setInput? value
      | some .dashes => some draft
      | some (.opened _) => none
      | none => none
  | first :: second :: rest =>
      match argument? first with
      | some (.switch switch) =>
          (draft.turnOn? switch).bind (readDraft · (second :: rest))
      | some (.setting setting value) =>
          (draft.set? setting value).bind (readDraft · (second :: rest))
      | some (.input value) => (draft.setInput? value).bind (readDraft · (second :: rest))
      | some .dashes => (second :: rest).foldlM Draft.setInput? draft
      | some (.opened setting) =>
          if isOption second then none
          else (draft.set? setting second).bind (readDraft · rest)
      | none => none

def read? (arguments : List Text) : Option Invocation :=
  (readDraft .empty arguments).bind Draft.finish?

/-! ## Running -/

inductive Failure
  | file
  | document
  deriving DecidableEq, Repr

def Failure.message : Failure → String
  | file => "I/O error"
  | document => "JSON error"

abbrev Files := Text → Option (List UInt8)

def Files.open (files : Files) (name : Text) : Except Failure (List UInt8) :=
  match files name with
  | some bytes => .ok bytes
  | none => .error .file

def options (files : Files) (invocation : Invocation) :
    Except Failure (Options Float) := do
  let base ← match invocation.config with
    | none => pure Options.standard
    | some name =>
        match Options.read (← files.open name) with
        | some options => pure options
        | none => throw .document
  return {
    invert := base.invert || invocation.invert
    margin := invocation.padding.getD base.margin
    mirror := base.mirror || invocation.mirror }

def run (files : Files) (invocation : Invocation) : Except Failure Text := do
  let options ← options files invocation
  let layer ← files.open invocation.input
  let plate ← match invocation.outline with
    | none => pure none
    | some name => pure (Layer.plate (Utf8.decode (← files.open name))).value
  let geometry :=
      (Geometry.ofLayer Overlay.cutter (Utf8.decode layer) options plate).value
  return geometry.json invocation.pretty

end Photoplot.CommandLine
