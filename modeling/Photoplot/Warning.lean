import Photoplot.Error
import Photoplot.Source.Coordinate

/-! # Warnings

What the plotter passes over or replaces by a default is noted, in the order in
which it happens, and never stops the work. -/

namespace Photoplot

inductive Warning
  -- reading commands
  | templateWithoutName
  | skippedParameter (content : Text) (error : ReadError)
  | skippedWord (word : Text) (error : ReadError)
  | unsupportedGCode (code : Nat)
  -- header
  | formatRepeated
  | unitsRepeated (units : Units)
  -- aperture macros
  | primitiveUnsupported (name : Text) (code : Nat)
  | statementSkipped (name line : Text) (error : ReadError)
  | variableUnresolved (name : Text) (index : Nat)
  | primitiveUnresolved (name : Text)
  -- apertures
  | apertureRedefined (code : Nat)
  | selectUndefined (code : Nat)
  | strokeWithoutAperture
  | strokeWithTemplate (code : Nat) (name : Text)
  | strokeUndefined (code : Nat)
  | flashWithoutAperture
  | flashUndefined (code : Nat)
  | flashUndefinedTemplate (name : Text)
  -- regions
  | regionReopened
  | regionNotOpen
  | flashInRegion
  | regionLeftOpen
  -- clearance
  | clearanceWithoutTraces
  | clearanceNotFinite
  | clearanceWithoutPlate
  | clearanceFailed (error : CutError)
  | clearanceCrashed
  | clearanceEmpty
  -- layers
  | layerSkipped (error : ReadError)
  | outlineUnusable (error : ReadError)
  | outlineOpen
  deriving DecidableEq, Repr

namespace Warning

private def nameOf (text : Text) : String := String.ofList text

private def codeOf (number : Nat) : String := String.ofList (Digits.ofNat number)

private def ofTemplate (name : Text) (rest : String) : String :=
  "Gerber: macro " ++ nameOf name ++ ": " ++ rest

private def instead (problem : String) : String :=
  "Clearance: " ++ problem ++ ", returning original"

def unitsName : Units → String
  | .millimeters => "Millimeters"
  | .inches => "Inches"

def message : Warning → String
  | templateWithoutName => "Gerber: skipping %AM without a name"
  | skippedParameter content error =>
      "Gerber: skipping %" ++ nameOf content ++ "%: " ++ error.message
  | skippedWord word error =>
      "Gerber: skipping block " ++ nameOf word.quoted ++ ": " ++ error.message
  | unsupportedGCode code =>
      "Gerber: ignoring unsupported G" ++ nameOf (Digits.padded 2 code)
  | formatRepeated => "Gerber: ignoring repeated %FS with a different format"
  | unitsRepeated units => "Gerber: ignoring repeated %MO switching to " ++
      unitsName units
  | primitiveUnsupported name code =>
      ofTemplate name ("primitive code " ++ codeOf code ++ " not supported, skipping it")
  | statementSkipped name line error =>
      ofTemplate name ("skipping " ++ nameOf line.quoted ++ ": " ++ error.message)
  | variableUnresolved name index =>
      ofTemplate name ("cannot evaluate $" ++ codeOf index ++ ", leaving it unbound")
  | primitiveUnresolved name =>
      ofTemplate name "dropping primitive with unresolvable fields"
  | apertureRedefined code => "Gerber: aperture D" ++ codeOf code ++ " redefined"
  | selectUndefined code => "Gerber: selecting undefined aperture D" ++ codeOf code
  | strokeWithoutAperture =>
      "Gerber: D01 before any aperture was selected, using default width"
  | strokeWithTemplate code name =>
      "Gerber: D01 with macro aperture D" ++ codeOf code ++ " (" ++ nameOf name ++
        "), using default width"
  | strokeUndefined code =>
      "Gerber: D01 with undefined aperture D" ++ codeOf code ++ ", using default width"
  | flashWithoutAperture =>
      "Gerber: D03 before any aperture was selected, using default pad"
  | flashUndefined code =>
      "Gerber: D03 flash with undefined aperture D" ++
        codeOf code ++ ", using default pad"
  | flashUndefinedTemplate name =>
      "Gerber: D03 flash with undefined macro '" ++ nameOf name ++ "', using default pad"
  | regionReopened => "Gerber: G36 inside an open region, discarding the open region"
  | regionNotOpen => "Gerber: G37 without G36"
  | flashInRegion => "Gerber: ignoring D03 inside a region"
  | regionLeftOpen => "Gerber: region still open at end of file, discarding it"
  | clearanceWithoutTraces => instead "no trace geometry"
  | clearanceNotFinite => instead "non-finite trace coordinates"
  | clearanceWithoutPlate => instead "empty or invalid plate"
  | clearanceFailed error => instead ("boolean failed (" ++ error.message ++ ")")
  | clearanceCrashed => "Panic during clearance boolean, returning original"
  | clearanceEmpty => instead "boolean produced nothing"
  | layerSkipped error => "Skipping layer: " ++ error.message
  | outlineUnusable error => "Unusable outline layer: " ++ error.message
  | outlineOpen => "Outline layer has no closed contour, using its bounding box"

end Warning

/-! ## Values with warnings -/

structure Noted (α : Type) where
  value : α
  warnings : List Warning
  deriving DecidableEq, Repr

namespace Noted

instance : Monad Noted where
  pure value := ⟨value, []⟩
  bind first next :=
    let second := next first.value
    ⟨second.value, first.warnings ++ second.warnings⟩

def note (warning : Warning) : Noted Unit := ⟨(), [warning]⟩

@[simp] theorem value_pure {α : Type} (value : α) :
    (pure value : Noted α).value = value := rfl

@[simp] theorem warnings_pure {α : Type} (value : α) :
    (pure value : Noted α).warnings = [] := rfl

@[simp] theorem value_bind {α β : Type} (first : Noted α) (next : α → Noted β) :
    (first >>= next).value = (next first.value).value := rfl

@[simp] theorem warnings_bind {α β : Type} (first : Noted α) (next : α → Noted β) :
    (first >>= next).warnings = first.warnings ++ (next first.value).warnings := rfl

@[ext] theorem ext {α : Type} {first second : Noted α}
    (value : first.value = second.value)
    (warnings : first.warnings = second.warnings) : first = second := by
  cases first
  cases second
  simp_all

theorem bind_bind {α β γ : Type} (first : Noted α) (next : α → Noted β)
    (last : β → Noted γ) :
    first >>= next >>= last = first >>= fun value => next value >>= last := by
  ext1 <;> simp

def concat {α : Type} (parts : List (Noted (List α))) : Noted (List α) :=
  ⟨parts.flatMap value, parts.flatMap warnings⟩

end Noted

end Photoplot
