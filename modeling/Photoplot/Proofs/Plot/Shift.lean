import Photoplot.Proofs.Plot.Translation
import Photoplot.Proofs.Source.Coordinate

/-! # Moving a plot

Commands that place everything elsewhere by the same distance plot the same things
elsewhere by that distance. A machine that is moved and carries out the moved command
is the machine that carries out the command and is moved then, provided that the
current point of every draw and flash has been placed by coordinates. -/

namespace Photoplot

/-! ## Commands in two places -/

def RawCoordinate.Shifted (decoder : Decoder) (axis : Axis) (offset : ℝ) :
    Option (RawCoordinate ℝ) → Option (RawCoordinate ℝ) → Prop
  | none, none => True
  | some raw, some moved => decoder.decode axis moved = decoder.decode axis raw + offset
  | _, _ => False

structure CoordinateFields.Shifted (decoder : Decoder) (offset : Point ℝ)
    (fields moved : CoordinateFields ℝ) : Prop where
  x : RawCoordinate.Shifted decoder .x offset.x fields.x moved.x
  y : RawCoordinate.Shifted decoder .y offset.y fields.y moved.y
  i : moved.i = fields.i
  j : moved.j = fields.j

def Command.Shifted (decoder : Decoder) (offset : Point ℝ) : Command ℝ → Command ℝ → Prop
  | .operation fields action, .operation moved other =>
      other = action ∧ decoder.format.addressing = .absolute ∧
        fields.Shifted decoder offset moved
  | command, moved => moved = command

theorem RawCoordinate.Shifted.isSome_eq {decoder : Decoder} {axis : Axis} {offset : ℝ}
    {raw moved : Option (RawCoordinate ℝ)}
    (shifted : Shifted decoder axis offset raw moved) :
    moved.isSome = raw.isSome := by
  match raw, moved with
  | none, none => rfl
  | some _, some _ => rfl

namespace Modes

/-- A draw finds both coordinates given by operations before it; a flash may give
them itself. -/
def IsPlaced (modes : Modes ℝ) : Command ℝ → Prop
  | .operation fields action =>
      match action.getD modes.action with
      | .draw => modes.xSeen = true ∧ modes.ySeen = true
      | .flash => (modes.advance fields).xSeen = true ∧
          (modes.advance fields).ySeen = true
      | .move => True
  | _ => True

noncomputable def translate (offset : Point ℝ) (modes : Modes ℝ) : Modes ℝ :=
  { modes with
    position :=
      ⟨if modes.xSeen then modes.position.x + offset.x else modes.position.x,
       if modes.ySeen then modes.position.y + offset.y else modes.position.y⟩ }

section

variable (offset : Point ℝ) (modes : Modes ℝ)

@[simp] theorem ended_translate : (modes.translate offset).ended = modes.ended := rfl

@[simp] theorem action_translate : (modes.translate offset).action = modes.action := rfl

@[simp] theorem regionOpen_translate :
    (modes.translate offset).regionOpen = modes.regionOpen := rfl

@[simp] theorem polarity_translate : (modes.translate offset).polarity = modes.polarity :=
    rfl

end

theorem position_translate {modes : Modes ℝ} (offset : Point ℝ)
    (xSeen : modes.xSeen = true) (ySeen : modes.ySeen = true) :
    (modes.translate offset).position = .translate offset modes.position := by
  simp only [translate, xSeen, ySeen, if_true]
  rfl

theorem target_translate {decoder : Decoder}
    (absolute : decoder.format.addressing = .absolute)
    {axis : Axis} {offset : ℝ} {raw moved : Option (RawCoordinate ℝ)}
    (shifted : RawCoordinate.Shifted decoder axis offset raw moved)
    (current : ℝ) (seen : Bool) :
    target decoder axis (if seen then current + offset else current) seen moved =
      if seen || raw.isSome then target decoder axis current seen raw + offset
      else target decoder axis current seen raw := by
  match raw, moved with
  | none, none => simp [target]
  | some raw, some moved =>
      have decoded : decoder.decode axis moved = decoder.decode axis raw + offset :=
          shifted
      simp [target, absolute, decoded]

theorem advance_translate {modes : Modes ℝ} {offset : Point ℝ}
    {fields moved : CoordinateFields ℝ}
    (absolute : modes.decoder.format.addressing = .absolute)
    (shifted : fields.Shifted modes.decoder offset moved) :
    (modes.translate offset).advance moved = (modes.advance fields).translate offset := by
  have x := target_translate absolute shifted.x modes.position.x modes.xSeen
  have y := target_translate absolute shifted.y modes.position.y modes.ySeen
  simp only [advance, translate, x, y, shifted.x.isSome_eq, shifted.y.isSome_eq]
  rfl

/-- The modes behind the moved command are those behind the command, moved. -/
theorem step_translate {modes : Modes ℝ} {offset : Point ℝ} {command moved : Command ℝ}
    (running : modes.ended = false)
    (shifted : command.Shifted modes.decoder offset moved) :
    (modes.translate offset).step moved = (modes.step command).translate offset := by
  simp only [step, ended_translate, running, Bool.false_eq_true, if_false]
  cases command with
  | operation fields action =>
      cases moved with
      | operation shiftedFields other =>
          rcases shifted with ⟨rfl, absolute, fieldsShifted⟩
          simp only [after, advance_translate absolute fieldsShifted]
          rfl
      | _ => cases shifted
  | _ =>
      cases shifted
      rfl

theorem offsets_translate {modes : Modes ℝ} {offset : Point ℝ}
    {fields moved : CoordinateFields ℝ}
    (shifted : fields.Shifted modes.decoder offset moved) :
    (modes.translate offset).offsets moved = modes.offsets fields := by
  simp only [offsets, shifted.i, shifted.j]
  rfl

end Modes

namespace Machine

open Canvas (Operation)

noncomputable def translate (offset : Point ℝ) (machine : Machine ℝ) : Machine ℝ :=
  { machine with
    modes := machine.modes.translate offset
    canvas := machine.canvas.translate offset }

@[simp] theorem modes_translate (offset : Point ℝ) (machine : Machine ℝ) :
    (machine.translate offset).modes = machine.modes.translate offset := rfl

/-! ## Flashes -/

theorem pad_translate (offset : Point ℝ) (machine : Machine ℝ) (aperture : Aperture ℝ)
    (center : Point ℝ) :
    ((machine.translate offset).pad aperture (.translate offset center)).value =
      (machine.pad aperture center).value.map (.translate offset) := by
  unfold pad
  cases aperture.shape with
  | circle diameter => rfl
  | rectangle width height =>
      simp [Contour.rectangle_translate, Path.Primitive.translate]
  | obround width height =>
      simp [Contour.obround_translate, Path.Primitive.translate]
  | polygon diameter vertices rotation =>
      simp [Contour.regular_translate, Path.Primitive.translate]
  | custom name parameters =>
      have templates : (machine.translate offset).templates = machine.templates := rfl
      simp only [templates]
      cases machine.templates.find? name with
      | none => rfl
      | some template => exact Template.run_translate offset _ _ _ _ _

theorem selectedPad_translate (offset : Point ℝ) (machine : Machine ℝ)
    (center : Point ℝ) :
    ((machine.translate offset).selectedPad (.translate offset center)).value =
      (machine.selectedPad center).value.map (.translate offset) := by
  have apertures : (machine.translate offset).apertures = machine.apertures := rfl
  have selected : (machine.translate offset).modes.aperture =
      machine.modes.aperture := rfl
  unfold selectedPad
  rw [selected, apertures]
  cases machine.modes.aperture with
  | none => rfl
  | some code =>
      simp only
      cases machine.apertures.find? code with
      | none => rfl
      | some aperture => exact pad_translate offset machine aperture center

/-! ## Operations -/

theorem moved_translate {machine : Machine ℝ} {offset : Point ℝ}
    {fields shiftedFields : CoordinateFields ℝ}
    (absolute : machine.modes.decoder.format.addressing = .absolute)
    (shifted : fields.Shifted machine.modes.decoder offset shiftedFields)
    (action : Option Action) :
    (machine.translate offset).moved shiftedFields action =
      (machine.moved fields action).translate offset := by
  have advanced := Modes.advance_translate absolute shifted
  unfold moved
  change { machine.translate offset with
    modes := { (machine.modes.translate offset).advance shiftedFields with
      action := action.getD machine.modes.action } } = _
  rw [advanced]
  rfl

theorem arc?_translate {modes : Modes ℝ} {offset origin : Point ℝ}
    {fields shiftedFields : CoordinateFields ℝ}
    (shifted : fields.Shifted modes.decoder offset shiftedFields)
    (xSeen : modes.xSeen = true) (ySeen : modes.ySeen = true) :
    arc? (modes.translate offset) (.translate offset origin) shiftedFields =
      (arc? modes origin fields).map (.translate offset) := by
  have interpolation : (modes.translate offset).interpolation = modes.interpolation := rfl
  have quadrants : (modes.translate offset).quadrants = modes.quadrants := rfl
  simp only [arc?, interpolation, quadrants, Modes.offsets_translate shifted,
    Modes.position_translate offset xSeen ySeen, Arc.resolve?_translate]
  cases modes.interpolation <;> rfl

theorem drawOperations_translate {machine : Machine ℝ} {offset origin : Point ℝ}
    {fields shiftedFields : CoordinateFields ℝ}
    (xSeen : machine.modes.xSeen = true) (ySeen : machine.modes.ySeen = true)
    (shifted : fields.Shifted machine.modes.decoder offset shiftedFields) :
    (machine.translate offset).drawOperations (.translate offset origin) shiftedFields =
      (machine.drawOperations origin fields).map (.translate offset) := by
  have arc :=
      @arc?_translate machine.modes offset origin fields shiftedFields shifted xSeen ySeen
  have position := Modes.position_translate offset xSeen ySeen
  simp only [drawOperations, modes_translate, arc, position, Modes.regionOpen_translate,
    Modes.polarity_translate]
  cases machine.modes.regionOpen with
  | true => cases arc? machine.modes origin fields <;> rfl
  | false =>
      cases machine.modes.polarity with
      | clear => rfl
      | dark => cases arc? machine.modes origin fields <;> rfl

theorem flashOperations_translate {machine : Machine ℝ} (offset : Point ℝ)
    (xSeen : machine.modes.xSeen = true) (ySeen : machine.modes.ySeen = true) :
    (machine.translate offset).flashOperations =
      machine.flashOperations.map (.translate offset) := by
  have position : (machine.translate offset).modes.position =
      .translate offset machine.modes.position :=
        Modes.position_translate offset xSeen ySeen
  rw [flashOperations, position, selectedPad_translate]
  simp only [modes_translate, Modes.regionOpen_translate, Modes.polarity_translate,
    flashOperations]
  by_cases opened : machine.modes.regionOpen = true
  · simp [opened]
  · by_cases clear : machine.modes.polarity = .clear
    · simp [clear]
    · simp [opened, clear, Operation.translate]

/-- The operations of the moved command are those of the command, moved. -/
theorem operations_translate {machine : Machine ℝ} {offset : Point ℝ}
    {command moved : Command ℝ}
    (running : machine.modes.ended = false) (placed : machine.modes.IsPlaced command)
    (shifted : command.Shifted machine.modes.decoder offset moved) :
    (machine.translate offset).operations moved =
      (machine.operations command).map (.translate offset) := by
  simp only [operations, modes_translate, Modes.ended_translate, Modes.action_translate,
    Modes.regionOpen_translate, Modes.polarity_translate, running, Bool.false_eq_true,
    if_false]
  cases command with
  | operation fields action =>
      cases moved with
      | operation shiftedFields other =>
          rcases shifted with ⟨rfl, absolute, fieldsShifted⟩
          simp only [Modes.IsPlaced] at placed
          simp only [moved_translate absolute fieldsShifted]
          cases taken : other.getD machine.modes.action with
          | move =>
              by_cases opened : machine.modes.regionOpen = true
              · simp [opened, Operation.translate]
              · simp [opened, Operation.translate]
          | draw =>
              simp only [taken] at placed
              have xSeen : (machine.moved fields other).modes.xSeen = true := by
                simp [Machine.moved, Modes.advance, placed.1]
              have ySeen : (machine.moved fields other).modes.ySeen = true := by
                simp [Machine.moved, Modes.advance, placed.2]
              simp only [Modes.position_translate offset placed.1 placed.2]
              exact drawOperations_translate xSeen ySeen fieldsShifted
          | flash =>
              simp only [taken] at placed
              have xSeen : (machine.moved fields other).modes.xSeen = true := placed.1
              exact flashOperations_translate offset xSeen placed.2
      | _ => cases shifted
  | endRegion =>
      cases shifted
      by_cases opened : machine.modes.regionOpen = true
      · by_cases clear : machine.modes.polarity = .clear
        · simp [opened, clear, Operation.translate]
        · simp [opened, clear, Operation.translate]
      · simp [opened]
  | _ =>
      cases shifted
      rfl

theorem canvas_step_translate {machine : Machine ℝ} {offset : Point ℝ}
    {command moved : Command ℝ}
    (running : machine.modes.ended = false) (placed : machine.modes.IsPlaced command)
    (shifted : command.Shifted machine.modes.decoder offset moved) :
    ((machine.translate offset).step moved).value.canvas =
      (machine.step command).value.canvas.translate offset := by
  have folded : ∀ (operations : List (Operation ℝ)) (canvas : Canvas ℝ),
      (operations.map (.translate offset)).foldl Canvas.carryOut
        (canvas.translate offset) =
        (operations.foldl Canvas.carryOut canvas).translate offset := by
    intro operations
    induction operations with
    | nil => exact fun _ => rfl
    | cons first rest induction =>
        intro canvas
        rw [List.map_cons, List.foldl_cons, Canvas.carryOut_translate, induction,
          List.foldl_cons]
  rw [canvas_step, canvas_step, operations_translate running placed shifted]
  exact folded _ _

/-! ## Commands -/

/-- The moved machine is the machine moved, before and behind a command. -/
theorem step_translate {machine : Machine ℝ} {offset : Point ℝ}
    {command moved : Command ℝ}
    (running : machine.modes.ended = false) (placed : machine.modes.IsPlaced command)
    (shifted : command.Shifted machine.modes.decoder offset moved) :
    ((machine.translate offset).step moved).value =
      (machine.step command).value.translate offset := by
  have modes : ((machine.translate offset).step moved).value.modes =
      (machine.step command).value.modes.translate offset := by
    rw [modes_step, modes_step]
    exact Modes.step_translate running shifted
  have canvas := canvas_step_translate running placed shifted
  have goesOn : (machine.translate offset).modes.ended = false := running
  simp only [step, running, goesOn, Bool.false_eq_true, if_false] at modes canvas ⊢
  have tools := machine.tools_execute command
  have toolsMoved := (machine.translate offset).tools_execute moved
  refine eq_of_parts modes ?_ ?_ canvas
  · rw [toolsMoved.1]
    refine Eq.trans ?_ tools.1.symm
    cases command with
    | operation fields action =>
        cases moved with
        | operation => rfl
        | _ => cases shifted
    | _ =>
        cases shifted
        rfl
  · rw [toolsMoved.2]
    refine Eq.trans ?_ tools.2.symm
    cases command with
    | operation fields action =>
        cases moved with
        | operation => rfl
        | _ => cases shifted
    | _ =>
        cases shifted
        rfl

/-! ## Runs -/

end Machine

namespace Modes

/-- Command by command, as far as they are carried out, the second list is the first one
with all positions shifted. The decoder is the one in force at the time. -/
def Shifts (modes : Modes ℝ) (offset : Point ℝ) :
    List (Command ℝ) → List (Command ℝ) → Prop
  | [], [] => True
  | command :: rest, moved :: others =>
      (modes.ended = false → command.Shifted modes.decoder offset moved) ∧
        (modes.step command).Shifts offset rest others
  | _, _ => False

def PlacesAll (modes : Modes ℝ) : List (Command ℝ) → Prop
  | [] => True
  | command :: rest =>
      (modes.ended = false → modes.IsPlaced command) ∧ (modes.step command).PlacesAll rest

end Modes

namespace Machine

theorem run_translate {machine : Machine ℝ} {offset : Point ℝ}
    {commands others : List (Command ℝ)} (placed : machine.modes.PlacesAll commands)
    (shifts : machine.modes.Shifts offset commands others) :
    ((machine.translate offset).run others).value =
      (machine.run commands).value.translate offset := by
  induction commands generalizing machine others with
  | nil =>
      cases others with
      | nil => rfl
      | cons => exact shifts.elim
  | cons command rest induction =>
      cases others with
      | nil => exact shifts.elim
      | cons moved later =>
          have next : ((machine.translate offset).step moved).value =
              (machine.step command).value.translate offset := by
            cases ended : machine.modes.ended with
            | false => exact step_translate ended (placed.1 ended) (shifts.1 ended)
            | true =>
                have endedMoved : (machine.translate offset).modes.ended = true := ended
                simp only [step, ended, endedMoved, if_true]
                rfl
          rw [run_cons, run_cons, next]
          apply induction
          · rw [modes_step]
            exact placed.2
          · rw [modes_step]
            exact shifts.2

theorem finish_translate (offset : Point ℝ) (machine : Machine ℝ) :
    (machine.translate offset).finish.value = machine.finish.value.translate offset := by
  rw [value_finish, value_finish, ← Canvas.finish_translate]
  congr 1
  by_cases opened : machine.modes.regionOpen = true
  · simp only [modes_translate, Modes.regionOpen_translate, opened, if_true]
    rfl
  · simp only [modes_translate, Modes.regionOpen_translate, opened]
    rfl

/-- Before the first coordinate nothing has been placed. -/
theorem start_translate (offset : Point ℝ) :
    (start : Machine ℝ).translate offset = start := by
  simp [translate, start, Modes.translate, Modes.start, Canvas.translate, Canvas.empty,
    Plot.translate, Plot.empty, OpenContour.translate, OpenContour.empty]

/-- The plot of the shifted commands is the plot of the commands, moved: every point of
its primitives, shapes, centre lines and box is elsewhere by the offset, and nothing
else is different. -/
theorem plot_translate {offset : Point ℝ} {commands moved : List (Command ℝ)}
    (placed : Modes.start.PlacesAll commands)
    (shifts : Modes.start.Shifts offset commands moved) :
    (plot moved).value = (plot commands).value.translate offset := by
  have runs := @run_translate start _ _ _ placed shifts
  rw [start_translate] at runs
  change (start.run moved).value.finish.value =
    (start.run commands).value.finish.value.translate _
  rw [runs, finish_translate]

noncomputable def sampleBoard (left bottom : ℝ) : List (Command ℝ) :=
  [.operation ⟨some (.decimal left), some (.decimal bottom), none, none⟩ none,
    .counterclockwise,
    .operation ⟨some (.decimal (left + 1)), none, some (.decimal 0.5), none⟩ (some .draw),
    .defineAperture 10 (.obround 0.5 1),
    .select 10,
    .operation ⟨none, some (.decimal (bottom + 1.5)), none, none⟩ (some .flash),
    .beginRegion,
    .linear,
    .operation ⟨some (.decimal (left + 2.5)), none, none, none⟩ (some .draw),
    .operation ⟨none, some (.decimal (bottom + 2.5)), none, none⟩ none,
    .endRegion,
    .endOfFile]

theorem plot_translate_sampleBoard :
    Modes.start.PlacesAll (sampleBoard 0 0) ∧
      Modes.start.Shifts ⟨5, -7⟩ (sampleBoard 0 0) (sampleBoard 5 (-7)) ∧
      (plot (sampleBoard 5 (-7))).value =
      (plot (sampleBoard 0 0)).value.translate ⟨5, -7⟩ := by
  have placed : Modes.start.PlacesAll (sampleBoard 0 0) := by
    simp [Modes.PlacesAll, sampleBoard, Modes.IsPlaced, Modes.step, Modes.after,
      Modes.start, Modes.advance]
  have position : ∀ {axis : Axis} {value moved offset : ℝ}, moved = value + offset →
      RawCoordinate.Shifted .start axis offset (some (.decimal value))
        (some (.decimal moved)) := by
    rintro axis value _ offset rfl
    simp [RawCoordinate.Shifted]
  have shifts : Modes.start.Shifts ⟨5, -7⟩ (sampleBoard 0 0) (sampleBoard 5 (-7)) := by
    simp only [Modes.Shifts, sampleBoard, Modes.step, Modes.after, Modes.start,
      Modes.advance, Bool.false_eq_true, if_false, Command.Shifted, true_and, and_true,
      forall_const]
    refine ⟨⟨rfl, ?_⟩, ⟨rfl, ?_⟩, ⟨rfl, ?_⟩, ⟨rfl, ?_⟩, rfl, ?_⟩
    · exact ⟨position (by norm_num), position (by norm_num), rfl, rfl⟩
    · exact ⟨position (by norm_num), trivial, rfl, rfl⟩
    · exact ⟨trivial, position (by norm_num), rfl, rfl⟩
    · exact ⟨position (by norm_num), trivial, rfl, rfl⟩
    · exact ⟨trivial, position (by norm_num), rfl, rfl⟩
  exact ⟨placed, shifts, plot_translate placed shifts⟩

end Machine

end Photoplot
