import Photoplot.Proofs.Scalar.Exact
import Photoplot.Proofs.Plot.Notation
import Photoplot.Proofs.Plot.Shorthand

/-! # Inches and millimetres

A layer in millimetres can be written in inches: every coordinate and every length of an
aperture is divided by the millimetres of an inch. Lengths come to the decoder with the
operations and to the table with the definitions, and both multiply by what the writer
has divided by, so that the plot is the same. -/

namespace Photoplot

/-! ## Tables with other values -/

namespace Table

variable {Key Value Other : Type} [DecidableEq Key]

def mapValues (change : Value → Other) (table : Table Key Value) : Table Key Other :=
  ⟨table.entries.map fun entry => (entry.1, change entry.2)⟩

variable (change : Value → Other) (table : Table Key Value)

theorem find?_mapValues (key : Key) :
    (table.mapValues change).find? key = (table.find? key).map change := by
  obtain ⟨entries⟩ := table
  simp only [find?, mapValues]
  induction entries with
  | nil => rfl
  | cons entry rest induction =>
      rw [List.map_cons, List.lookup_cons, List.lookup_cons, induction]
      split <;> rfl

theorem insert_mapValues (key : Key) (value : Value) :
    (table.mapValues change).insert key (change value) =
      (table.insert key value).mapValues change := by
  simp [insert, mapValues, List.filter_map, Function.comp_def]

end Table

/-! ## Layers in inches -/

noncomputable def RawCoordinate.inInches : RawCoordinate ℝ → RawCoordinate ℝ
  | .decimal value => .decimal (value / 25.4)
  | raw => raw

noncomputable def CoordinateFields.inInches (fields : CoordinateFields ℝ) :
    CoordinateFields ℝ :=
  ⟨fields.x.map .inInches, fields.y.map .inInches, fields.i.map .inInches,
    fields.j.map .inInches⟩

namespace ApertureShape

noncomputable def inInches : ApertureShape ℝ → ApertureShape ℝ
  | .circle diameter => .circle (diameter / 25.4)
  | .rectangle width height => .rectangle (width / 25.4) (height / 25.4)
  | .obround width height => .obround (width / 25.4) (height / 25.4)
  | .polygon diameter vertices rotation => .polygon (diameter / 25.4) vertices rotation
  | .custom name parameters => .custom name parameters

def IsStandard : ApertureShape ℝ → Prop
  | .custom .. => False
  | _ => True

theorem scaled_inInches {shape : ApertureShape ℝ} (standard : shape.IsStandard) :
    shape.inInches.scaled Units.inches.scale = shape.scaled Units.millimeters.scale := by
  have whole : ∀ length : ℝ, length / 25.4 * 25.4 = length * 1.0 := by
    intro length
    norm_num
  cases shape with
  | custom => exact standard.elim
  | _ => simp only [inInches, scaled, Units.scale, whole]

theorem isStandard_scaled {shape : ApertureShape ℝ}
    (standard : shape.IsStandard) (scale : ℝ) :
    (shape.scaled scale).IsStandard := by
  cases shape with
  | custom => exact standard.elim
  | _ => trivial

end ApertureShape

namespace Command

noncomputable def inInches : Command ℝ → Command ℝ
  | .units _ => .units .inches
  | .defineAperture code shape => .defineAperture code shape.inInches
  | .operation fields action => .operation fields.inInches action
  | command => command

/-- Every length of the command is one that can be divided: coordinates have a point, and
no aperture is made by a macro, which has lengths of its own. -/
def IsConvertible : Command ℝ → Prop
  | .defineAperture _ shape => shape.IsStandard
  | .operation fields _ =>
      RawCoordinate.HasPoint fields.x ∧ RawCoordinate.HasPoint fields.y ∧
        RawCoordinate.HasPoint fields.i ∧ RawCoordinate.HasPoint fields.j
  | _ => True

end Command

namespace Decoder

def inInches (decoder : Decoder) : Decoder := { decoder with units := .inches }

theorem setFormat_inInches (decoder : Decoder) (format : CoordinateFormat) :
    (decoder.inInches.setFormat format).value =
      (decoder.setFormat format).value.inInches := by
  simp only [value_setFormat, inInches]
  split <;> rfl

theorem decode_inInches {decoder : Decoder}
    (metric : decoder.units = .millimeters) (axis : Axis)
    {raw : RawCoordinate ℝ} (pointed : RawCoordinate.HasPoint (some raw)) :
    decoder.inInches.decode axis raw.inInches = decoder.decode axis raw := by
  cases raw with
  | integer => exact pointed.elim
  | decimal value =>
      simp only [decode, toMillimeters, RawCoordinate.inInches, Decoder.value, inInches,
        metric, Units.scale]
      norm_num

end Decoder

/-- The shape is in millimetres already; the unit is the one of the definition. -/
noncomputable def Aperture.inInches (aperture : Aperture ℝ) : Aperture ℝ :=
  { aperture with unit := Units.inches.scale }

namespace Apertures

noncomputable def inInches (apertures : Apertures ℝ) : Apertures ℝ :=
  Table.mapValues Aperture.inInches apertures

theorem define_inInches (apertures : Apertures ℝ) (code : ℕ) {shape : ApertureShape ℝ}
    (standard : shape.IsStandard) :
    (apertures.inInches.define code shape.inInches .inches).value =
      (apertures.define code shape .millimeters).value.inInches := by
  rw [value_define, value_define, ApertureShape.scaled_inInches standard]
  exact Table.insert_mapValues Aperture.inInches apertures code ⟨_, _⟩

theorem strokeWidth_inInches (apertures : Apertures ℝ) (selected : Option ℕ) :
    apertures.inInches.strokeWidth selected = apertures.strokeWidth selected := by
  cases selected with
  | none => rfl
  | some code =>
      simp only [strokeWidth, inInches, Table.find?_mapValues, Option.map_map]
      rfl

end Apertures

noncomputable def Reading.inInches : Reading ℝ := ⟨Decoder.inInches, Apertures.inInches⟩

namespace Modes

theorem target_inInches {decoder : Decoder}
    (metric : decoder.units = .millimeters) (axis : Axis)
    (current : ℝ) (seen : Bool) {field : Option (RawCoordinate ℝ)}
    (pointed : RawCoordinate.HasPoint field) :
    target decoder.inInches axis current seen (field.map .inInches) =
      target decoder axis current seen field := by
  cases field with
  | none => rfl
  | some raw =>
      simp only [Option.map_some, target, Decoder.decode_inInches metric axis pointed]
      rfl

theorem map_decode_inInches {decoder : Decoder} (metric : decoder.units = .millimeters)
    (axis : Axis) {field : Option (RawCoordinate ℝ)}
    (pointed : RawCoordinate.HasPoint field) :
    (field.map .inInches).map (decoder.inInches.decode axis) =
      field.map (decoder.decode axis) := by
  cases field with
  | none => rfl
  | some raw => exact congrArg some (Decoder.decode_inInches metric axis pointed)

theorem meansSame_inInches {modes : Modes ℝ} (metric : modes.decoder.units = .millimeters)
    {fields : CoordinateFields ℝ} {action : Option Action}
    (convertible : Command.IsConvertible (.operation fields action)) :
    modes.MeansSame modes.decoder.inInches fields fields.inInches where
  advance := by
    obtain ⟨x, y, -⟩ := convertible
    simp only [advance, reading, CoordinateFields.inInches,
      target_inInches metric _ _ _ x, target_inInches metric _ _ _ y, Option.isSome_map]
  offsets := by
    obtain ⟨-, -, i, j⟩ := convertible
    simp only [offsets, reading, CoordinateFields.inInches,
      map_decode_inInches metric _ i, map_decode_inInches metric _ j]

end Modes

/-! ## Machines in millimetres -/

namespace Machine

structure IsMetric (machine : Machine ℝ) : Prop where
  units : machine.modes.decoder.units = .millimeters
  fixed : machine.modes.decoder.unitsFixed = true
  standard {code : ℕ} {aperture : Aperture ℝ} :
    machine.apertures.find? code = some aperture → aperture.shape.IsStandard

variable {machine : Machine ℝ}

theorem IsMetric.drawsSame (metric : machine.IsMetric) :
    machine.DrawsSame machine.apertures.inInches where
  width := congrArg _ (Apertures.strokeWidth_inInches _ _)
  pad decoder center := by
    simp only [selectedPad, modes_reading, Modes.aperture_reading]
    cases machine.modes.aperture with
    | none => rfl
    | some code =>
        have found :
            (machine.reading decoder machine.apertures.inInches).apertures.find? code =
            _ := Table.find?_mapValues _ machine.apertures code
        simp only [found]
        cases held : machine.apertures.find? code with
        | none => rfl
        | some aperture =>
            obtain ⟨shape, unit⟩ := aperture
            have standard := metric.standard held
            cases shape with
            | custom => exact standard.elim
            | _ => rfl

theorem IsMetric.execute (metric : machine.IsMetric) {command : Command ℝ}
    (convertible : command.IsConvertible) : (machine.execute command).value.IsMetric := by
  have settled : (machine.modes.after command).decoder.units = .millimeters ∧
      (machine.modes.after command).decoder.unitsFixed = true := by
    cases command with
    | format format =>
        simp only [Modes.after, Decoder.value_setFormat]
        split <;> exact ⟨metric.units, metric.fixed⟩
    | units units =>
        simp only [Modes.after, Decoder.value_setUnits, metric.fixed, if_true]
        exact ⟨metric.units, trivial⟩
    | _ => exact ⟨metric.units, metric.fixed⟩
  rw [← modes_execute] at settled
  refine ⟨settled.1, settled.2, ?_⟩
  intro code aperture found
  rw [(machine.tools_execute command).1] at found
  cases command with
  | defineAperture own shape =>
      simp only [Apertures.value_define] at found
      by_cases same : code = own
      · subst same
        rw [Table.find?_insert_self, Option.some.injEq] at found
        subst found
        exact ApertureShape.isStandard_scaled convertible _
      · rw [Table.find?_insert_of_ne _ _ same] at found
        exact metric.standard found
  | _ => exact metric.standard found

theorem IsMetric.step (metric : machine.IsMetric) {command : Command ℝ}
    (convertible : command.IsConvertible) : (machine.step command).value.IsMetric := by
  unfold Machine.step
  split
  · exact metric
  · exact metric.execute convertible

/-- The command in inches takes the machine that reads inches to where the command takes
the machine that reads millimetres. -/
theorem step_inInches (metric : machine.IsMetric) {command : Command ℝ}
    (convertible : command.IsConvertible) :
    ((machine.under .inInches).step command.inInches).value =
      (machine.step command).value.under .inInches := by
  cases command with
  | format format =>
      exact step_under_of_parts
        (congrArg machine.modes.reading (machine.modes.decoder.setFormat_inInches format))
        rfl rfl rfl
  | units units =>
      -- The units of both machines are settled, so that they ignore the commands.
      have fixed : (machine.under .inInches).modes.decoder.unitsFixed =
          true := metric.fixed
      have ignored : (machine.step (.units units)).value = machine :=
        settles_units.ignore (.inr metric.fixed) rfl
      have ignoredUnder : ((machine.under .inInches).step (.units .inches)).value =
          machine.under .inInches := settles_units.ignore (.inr fixed) rfl
      rw [Command.inInches, ignored, ignoredUnder]
  | defineAperture code shape =>
      refine step_under_of_parts rfl ?_ rfl rfl
      have defined := machine.apertures.define_inInches code convertible
      rw [← metric.units] at defined
      exact defined
  | operation fields action =>
      exact step_under_operation (Modes.meansSame_inInches metric.units convertible)
        metric.drawsSame action
  | _ => exact step_under_of_neutral trivial

theorem run_inInches (metric : machine.IsMetric) {commands : List (Command ℝ)}
    (convertible : ∀ command ∈ commands, command.IsConvertible) :
    ((machine.under .inInches).run (commands.map .inInches)).value =
      (machine.run commands).value.under .inInches := by
  induction commands generalizing machine with
  | nil => rfl
  | cons command rest induction =>
      rw [List.forall_mem_cons] at convertible
      rw [List.map_cons, run_cons, run_cons, step_inInches metric convertible.1]
      exact induction (metric.step convertible.1) convertible.2

/-- A layer that begins with millimetres plots the same when it is written in inches. -/
theorem plot_inInches {commands : List (Command ℝ)}
    (convertible : ∀ command ∈ commands, command.IsConvertible) :
    (plot ((.units .millimeters :: commands).map Command.inInches)).value =
      (plot (.units .millimeters :: commands)).value := by
  have metric : (start.step (.units .millimeters : Command ℝ)).value.IsMetric := by
    refine ⟨rfl, rfl, ?_⟩
    intro code aperture found
    cases found
  have run := run_inInches metric convertible
  have begun : ((start.step (.units .millimeters : Command ℝ)).value.under .inInches) =
      (start.step (.units .inches)).value := rfl
  rw [begun] at run
  change ((start.step (.units .inches)).value.run
    (commands.map .inInches)).value.finish.value =
    ((start.step (.units .millimeters)).value.run commands).value.finish.value
  rw [run, finish_under]

noncomputable def inchBoard : List (Command ℝ) :=
  [.defineAperture 10 (.polygon 2.54 6 30), .select 10,
   .operation ⟨some (.decimal 25.4), none, none, none⟩ (some .flash),
   .units .inches, .clockwise,
   .operation ⟨none, some (.decimal 12.7), none, some (.decimal 6.35)⟩ (some .draw)]

theorem plot_inInches_inchBoard :
    (∀ command ∈ inchBoard, command.IsConvertible) ∧
      inchBoard.map Command.inInches =
        [.defineAperture 10 (.polygon 0.1 6 30), .select 10,
         .operation ⟨some (.decimal 1), none, none, none⟩ (some .flash),
         .units .inches, .clockwise,
         .operation ⟨none, some (.decimal 0.5), none,
           some (.decimal 0.25)⟩ (some .draw)] ∧
      (plot ((.units .millimeters :: inchBoard).map Command.inInches)).value =
        (plot (.units .millimeters :: inchBoard)).value := by
  have convertible : ∀ command ∈ inchBoard, command.IsConvertible := by
    simp [inchBoard, Command.IsConvertible, ApertureShape.IsStandard,
      RawCoordinate.HasPoint]
  refine ⟨convertible, ?_, plot_inInches convertible⟩
  simp only [inchBoard, List.map_cons, List.map_nil, Command.inInches,
    ApertureShape.inInches, CoordinateFields.inInches, RawCoordinate.inInches,
    Option.map_some, Option.map_none]
  norm_num

end Machine

end Photoplot
