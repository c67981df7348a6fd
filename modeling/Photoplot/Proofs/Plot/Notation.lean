import Photoplot.Proofs.Plot.Operation

/-! # Layers in other notations

The decoder and the table of apertures stand between what a layer writes and what it
plots. A machine that has others in their place does the same, as long as it is given
fields that mean to its decoder what the fields mean to the decoder replaced, and
apertures that leave the same on the canvas. -/

namespace Photoplot

def RawCoordinate.HasPoint {K : Type} : Option (RawCoordinate K) → Prop
  | some (.integer ..) => False
  | _ => True

namespace Modes

variable {K : Type} [PlaneScalar K]

def reading (modes : Modes K) (decoder : Decoder) : Modes K := { modes with decoder }

section

variable (modes : Modes K) (decoder : Decoder)

omit [PlaneScalar K]

@[simp] theorem position_reading : (modes.reading decoder).position = modes.position :=
    rfl

@[simp] theorem aperture_reading : (modes.reading decoder).aperture = modes.aperture :=
    rfl

@[simp] theorem interpolation_reading :
    (modes.reading decoder).interpolation = modes.interpolation := rfl

@[simp] theorem quadrants_reading : (modes.reading decoder).quadrants = modes.quadrants :=
    rfl

@[simp] theorem regionOpen_reading :
    (modes.reading decoder).regionOpen = modes.regionOpen := rfl

@[simp] theorem action_reading : (modes.reading decoder).action = modes.action := rfl

@[simp] theorem polarity_reading : (modes.reading decoder).polarity = modes.polarity :=
    rfl

@[simp] theorem ended_reading : (modes.reading decoder).ended = modes.ended := rfl

end

structure MeansSame (modes : Modes K) (decoder : Decoder)
    (fields other : CoordinateFields K) :
    Prop where
  advance : (modes.reading decoder).advance other = (modes.advance fields).reading decoder
  offsets : (modes.reading decoder).offsets other = modes.offsets fields

end Modes

namespace Machine

variable {K : Type} [PlaneScalar K]

def reading (machine : Machine K) (decoder : Decoder)
    (apertures : Apertures K) : Machine K :=
  { machine with modes := machine.modes.reading decoder, apertures }

structure DrawsSame (machine : Machine K) (apertures : Apertures K) : Prop where
  width : (apertures.strokeWidth machine.modes.aperture).value =
    (machine.apertures.strokeWidth machine.modes.aperture).value
  pad (decoder : Decoder) (center : Point K) :
    ((machine.reading decoder apertures).selectedPad center).value =
      (machine.selectedPad center).value

variable {machine : Machine K} {decoder : Decoder} {apertures : Apertures K}
  {fields other : CoordinateFields K}

omit [PlaneScalar K] in
@[simp] theorem modes_reading :
    (machine.reading decoder apertures).modes = machine.modes.reading decoder := rfl

/-! ## Operations -/

theorem moved_reading (same : machine.modes.MeansSame decoder fields other)
    (action : Option Action) :
    (machine.reading decoder apertures).moved other action =
      (machine.moved fields action).reading decoder apertures := by
  simp only [moved, modes_reading, same.advance]
  rfl

theorem drawOperations_reading (origin : Point K)
    (offsets : (machine.modes.reading decoder).offsets other =
      machine.modes.offsets fields)
    (draws : machine.DrawsSame apertures) :
    (machine.reading decoder apertures).drawOperations origin other =
      machine.drawOperations origin fields := by
  have arc : arc? (machine.modes.reading decoder) origin other =
      arc? machine.modes origin fields := by
    simp only [arc?, offsets, Modes.interpolation_reading, Modes.quadrants_reading,
      Modes.position_reading]
  have tools : (machine.reading decoder apertures).apertures = apertures := rfl
  simp only [drawOperations, modes_reading, arc, tools, draws.width,
    Modes.regionOpen_reading, Modes.polarity_reading, Modes.position_reading,
    Modes.aperture_reading]

theorem flashOperations_reading (draws : machine.DrawsSame apertures) :
    (machine.reading decoder apertures).flashOperations = machine.flashOperations := by
  simp only [flashOperations, draws.pad, modes_reading, Modes.regionOpen_reading,
    Modes.polarity_reading, Modes.position_reading]

theorem DrawsSame.moved (draws : machine.DrawsSame apertures)
    (fields : CoordinateFields K)
    (action : Option Action) : (machine.moved fields action).DrawsSame apertures :=
  ⟨draws.width, draws.pad⟩

theorem operations_reading (same : machine.modes.MeansSame decoder fields other)
    (draws : machine.DrawsSame apertures) (action : Option Action) :
    (machine.reading decoder apertures).operations (.operation other action) =
      machine.operations (.operation fields action) := by
  have drawsMoved := draws.moved fields action
  have drawn : ((machine.moved fields action).reading decoder apertures).drawOperations
      machine.modes.position other =
        (machine.moved fields action).drawOperations machine.modes.position fields :=
    drawOperations_reading machine.modes.position same.offsets drawsMoved
  have flashed :
      ((machine.moved fields action).reading decoder apertures).flashOperations =
      (machine.moved fields action).flashOperations := flashOperations_reading drawsMoved
  simp only [operations, moved_reading same, modes_reading, Modes.ended_reading,
    Modes.action_reading, Modes.regionOpen_reading, Modes.position_reading, drawn,
    flashed]
  rfl

end Machine

/-! ## Commands -/

structure Reading (K : Type) where
  decoder : Decoder → Decoder
  apertures : Apertures K → Apertures K

def Command.IsNeutral {K : Type} : Command K → Prop
  | .format _ | .units _ | .defineAperture .. | .operation .. => False
  | _ => True

namespace Machine

variable {K : Type} [PlaneScalar K]

def under (machine : Machine K) (other : Reading K) : Machine K :=
  machine.reading (other.decoder machine.modes.decoder)
    (other.apertures machine.apertures)

variable {machine : Machine K} {notated : Reading K}

omit [PlaneScalar K] in
@[simp] theorem modes_under : (machine.under notated).modes =
    machine.modes.reading (notated.decoder machine.modes.decoder) := rfl

/-- The other command takes the other machine to where the command takes the machine, if
it does so with the modes and the tools and both reach the canvas with the same
operations. -/
theorem step_under_of_parts {command other : Command K}
    (modes : (machine.modes.reading (notated.decoder machine.modes.decoder)).after other =
      (machine.modes.after command).reading
        (notated.decoder (machine.modes.after command).decoder))
    (apertures : ((machine.under notated).execute other).value.apertures =
      notated.apertures (machine.execute command).value.apertures)
    (templates : ((machine.under notated).execute other).value.templates =
      (machine.execute command).value.templates)
    (operations : (machine.under notated).operations other = machine.operations command) :
    ((machine.under notated).step other).value =
      (machine.step command).value.under notated := by
  cases ended : machine.modes.ended with
  | true =>
      have endedUnder : (machine.under notated).modes.ended = true := ended
      rw [step_of_ended ended, step_of_ended endedUnder]
      rfl
  | false =>
      have goesOn : (machine.under notated).modes.ended = false := ended
      have canvas : ((machine.under notated).step other).value.canvas =
          (machine.step command).value.canvas := by
        rw [canvas_step, canvas_step, operations]
        rfl
      simp only [step, goesOn, ended, Bool.false_eq_true, if_false] at canvas ⊢
      refine eq_of_parts ?_ apertures templates canvas
      rw [modes_execute, modes_under, modes_under, modes_execute]
      exact modes

/-- The other fields take the other machine where the fields take the machine. -/
theorem step_under_operation {fields other : CoordinateFields K}
    (same : machine.modes.MeansSame (notated.decoder machine.modes.decoder) fields other)
    (draws : machine.DrawsSame (notated.apertures machine.apertures))
    (action : Option Action) :
    ((machine.under notated).step (.operation other action)).value =
      (machine.step (.operation fields action)).value.under notated := by
  have tools := machine.tools_execute (.operation fields action)
  have toolsUnder := (machine.under notated).tools_execute (.operation other action)
  refine step_under_of_parts ?_ (toolsUnder.1.trans (congrArg _ tools.1.symm))
    (toolsUnder.2.trans tools.2.symm) (operations_reading same draws action)
  simp only [Modes.after, same.advance]
  rfl

theorem step_under_of_neutral {command : Command K} (neutral : command.IsNeutral) :
    ((machine.under notated).step command).value =
      (machine.step command).value.under notated := by
  have tools := machine.tools_execute command
  have toolsUnder := (machine.under notated).tools_execute command
  apply step_under_of_parts
  · cases command with
    | format | units | defineAperture | operation => exact neutral.elim
    | _ => rfl
  · rw [toolsUnder.1, tools.1]
    cases command with
    | format | units | defineAperture | operation => exact neutral.elim
    | _ => rfl
  · exact toolsUnder.2.trans tools.2.symm
  · cases command with
    | format | units | defineAperture | operation => exact neutral.elim
    | _ => rfl

omit [PlaneScalar K] in
theorem finish_under : (machine.under notated).finish.value = machine.finish.value := by
  rw [value_finish, value_finish]
  rfl

end Machine

end Photoplot
