import Photoplot.Proofs.Scalar.Exact
import Photoplot.Proofs.Plot.Notation

/-! # Steps and positions

A layer whose coordinates are steps can be written with positions instead: on each axis
every step becomes the sum of the steps so far, and the format says so. As long as the
header has been read before the first position and the steps are written with a point,
the current point is the same after every command, and so is the plot. -/

namespace Photoplot

/-! ## Positions in place of steps -/

def CoordinateFormat.absolute (format : CoordinateFormat) : CoordinateFormat :=
  { format with addressing := .absolute }

namespace Decoder

def absolute (decoder : Decoder) : Decoder :=
    { decoder with format := decoder.format.absolute }

theorem setFormat_absolute (decoder : Decoder) (format : CoordinateFormat) :
    (decoder.absolute.setFormat format.absolute).value =
      (decoder.setFormat format).value.absolute := by
  simp only [value_setFormat, absolute]
  split <;> rfl

theorem setUnits_absolute (decoder : Decoder) (units : Units) :
    (decoder.absolute.setUnits units).value =
      (decoder.setUnits units).value.absolute := by
  simp only [value_setUnits, absolute]
  split <;> rfl

end Decoder

namespace RawCoordinate

def amount : Option (RawCoordinate ℝ) → ℝ
  | some (.decimal value) => value
  | _ => 0

end RawCoordinate

namespace CoordinateFields

noncomputable def total (sums : Point ℝ) (fields : CoordinateFields ℝ) : Point ℝ :=
  ⟨sums.x + RawCoordinate.amount fields.x, sums.y + RawCoordinate.amount fields.y⟩

def placed (position : Point ℝ) (fields : CoordinateFields ℝ) : CoordinateFields ℝ :=
  { fields with
    x := fields.x.map fun _ => .decimal position.x
    y := fields.y.map fun _ => .decimal position.y }

end CoordinateFields

namespace Command

noncomputable def total (sums : Point ℝ) : Command ℝ → Point ℝ
  | .operation fields _ => fields.total sums
  | _ => sums

noncomputable def absolute (sums : Point ℝ) : Command ℝ → Command ℝ
  | .format header => .format header.absolute
  | .operation fields action => .operation (fields.placed (fields.total sums)) action
  | command => command

def format? {K : Type} : Command K → Option CoordinateFormat
  | .format header => some header
  | _ => none

def GivesNoPosition {K : Type} : Command K → Prop
  | .operation fields _ => fields.x = none ∧ fields.y = none
  | _ => True

def IsPointed : Command ℝ → Prop
  | .format _ | .units _ => False
  | .operation fields _ => RawCoordinate.HasPoint fields.x ∧
      RawCoordinate.HasPoint fields.y
  | _ => True

end Command

namespace Program

noncomputable def absoluteFrom (sums : Point ℝ) : List (Command ℝ) → List (Command ℝ)
  | [] => []
  | command :: rest => command.absolute sums :: absoluteFrom (command.total sums) rest

noncomputable def absolute (commands : List (Command ℝ)) : List (Command ℝ) :=
  absoluteFrom .origin commands

/-- The header comes before the first position and makes positions steps. -/
structure IsIncremental (header body : List (Command ℝ)) : Prop where
  unplaced : ∀ command ∈ header, command.GivesNoPosition
  incremental : ∃ format, header.findSome? Command.format? = some format ∧
    format.addressing = .incremental
  pointed : ∀ command ∈ body, command.IsPointed

theorem absoluteFrom_append (sums : Point ℝ) (first second : List (Command ℝ)) :
    absoluteFrom sums (first ++ second) =
      absoluteFrom sums first ++
      absoluteFrom (first.foldl Command.total sums) second := by
  induction first generalizing sums with
  | nil => rfl
  | cons command rest induction => exact congrArg _ (induction (command.total sums))

theorem take_absoluteFrom (count : ℕ) (sums : Point ℝ) (commands : List (Command ℝ)) :
    (absoluteFrom sums commands).take count =
      absoluteFrom sums (commands.take count) := by
  induction commands generalizing count sums with
  | nil => simp [absoluteFrom]
  | cons command rest induction =>
      cases count with
      | zero => rfl
      | succ count => exact congrArg _ (induction count (command.total sums))

end Program

theorem Command.total_of_givesNoPosition {command : Command ℝ}
    (unplaced : command.GivesNoPosition)
    (sums : Point ℝ) : command.total sums = sums := by
  cases command with
  | operation fields action =>
      obtain ⟨x, y⟩ := unplaced
      simp [total, CoordinateFields.total, x, y, RawCoordinate.amount]
  | _ => rfl

/-! ## The current point -/

namespace Modes

/-- On one axis the current point is where the steps so far add up to. Before the first
step nothing has been added up. -/
structure TracksAxis (decoder : Decoder) (current sum : ℝ) (seen : Bool) : Prop where
  reached : current = decoder.toMillimeters sum
  unseen : seen = false → sum = 0

/-- A step from a sum leads to the next sum, and so does the first one, which is a
position. -/
theorem TracksAxis.target {decoder : Decoder} {current sum : ℝ} {seen : Bool}
    (tracks : TracksAxis decoder current sum seen)
    (incremental : decoder.format.addressing = .incremental) (axis : Axis)
    {raw : Option (RawCoordinate ℝ)} (pointed : RawCoordinate.HasPoint raw) :
    TracksAxis decoder (target decoder axis current seen raw)
      (sum + RawCoordinate.amount raw)
      (seen || raw.isSome) := by
  match raw, pointed with
  | none, _ => simpa [Modes.target, RawCoordinate.amount] using tracks
  | some (.decimal value), _ =>
      refine ⟨?_, by simp⟩
      cases seen with
      | false =>
          simp [Modes.target, RawCoordinate.amount, Decoder.decode, Decoder.value,
            tracks.unseen rfl]
      | true =>
          simp only [Modes.target, incremental, RawCoordinate.amount, Decoder.decode,
            Decoder.value, Decoder.toMillimeters, tracks.reached, true_and, if_true]
          ring

structure Tracks (modes : Modes ℝ) (sums : Point ℝ) : Prop where
  incremental : modes.decoder.format.addressing = .incremental
  x : TracksAxis modes.decoder modes.position.x sums.x modes.xSeen
  y : TracksAxis modes.decoder modes.position.y sums.y modes.ySeen

theorem tracks_origin {modes : Modes ℝ}
    (incremental : modes.decoder.format.addressing = .incremental)
    (origin : modes.position = .origin) : modes.Tracks .origin := by
  have begun (seen : Bool) : TracksAxis modes.decoder 0.0 0.0 seen := by
    constructor <;> simp [Decoder.toMillimeters, Exact.zero_eq]
  refine ⟨incremental, ?_, ?_⟩
  · rw [origin]
    exact begun modes.xSeen
  · rw [origin]
    exact begun modes.ySeen

/-- A field with the sum in it is the position that the step leads to. -/
theorem target_absolute {decoder : Decoder} {axis : Axis} {current sum : ℝ} {seen : Bool}
    {raw : Option (RawCoordinate ℝ)}
    (reached : raw.isSome = true →
      target decoder axis current seen raw = decoder.toMillimeters sum) :
    target decoder.absolute axis current seen (raw.map fun _ => .decimal sum) =
      target decoder axis current seen raw := by
  cases raw with
  | none => rfl
  | some raw =>
      rw [reached rfl]
      simp [target, Decoder.absolute, CoordinateFormat.absolute, Decoder.decode,
        Decoder.value, Decoder.toMillimeters]

variable {modes : Modes ℝ} {sums : Point ℝ} {fields : CoordinateFields ℝ}

theorem meansSame_placed {position : Point ℝ}
    (x : fields.x.isSome = true →
      (modes.advance fields).position.x = modes.decoder.toMillimeters position.x)
    (y : fields.y.isSome = true →
      (modes.advance fields).position.y = modes.decoder.toMillimeters position.y) :
    modes.MeansSame modes.decoder.absolute fields (fields.placed position) where
  advance := by
    simp only [advance, reading, CoordinateFields.placed, target_absolute x,
      target_absolute y, Option.isSome_map]
  offsets := rfl

theorem Tracks.advance (tracks : modes.Tracks sums) (x : RawCoordinate.HasPoint fields.x)
    (y : RawCoordinate.HasPoint fields.y) :
    (modes.advance fields).Tracks (fields.total sums) :=
  ⟨tracks.incremental, tracks.x.target tracks.incremental .x x,
    tracks.y.target tracks.incremental .y y⟩

theorem Tracks.after (tracks : modes.Tracks sums) {command : Command ℝ}
    (pointed : command.IsPointed) :
    (modes.after command).Tracks (command.total sums) := by
  cases command with
  | format | units => exact pointed.elim
  | operation fields action =>
      have advanced := tracks.advance pointed.1 pointed.2
      exact ⟨advanced.incremental, advanced.x, advanced.y⟩
  | _ => exact ⟨tracks.incremental, tracks.x, tracks.y⟩

def Agrees (modes : Modes ℝ) (sums : Point ℝ) : Command ℝ → Prop
  | .operation fields _ =>
      modes.MeansSame modes.decoder.absolute fields (fields.placed (fields.total sums))
  | _ => True

theorem Tracks.agrees (tracks : modes.Tracks sums) {command : Command ℝ}
    (pointed : command.IsPointed) : modes.Agrees sums command := by
  cases command with
  | operation fields action =>
      have advanced := tracks.advance pointed.1 pointed.2
      exact meansSame_placed (fun _ => advanced.x.reached) fun _ => advanced.y.reached
  | _ => trivial

theorem agrees_of_givesNoPosition {command : Command ℝ}
    (unplaced : command.GivesNoPosition) :
    modes.Agrees sums command := by
  cases command with
  | operation fields action =>
      apply meansSame_placed
      · intro given
        simp [unplaced.1] at given
      · intro given
        simp [unplaced.2] at given
  | _ => trivial

end Modes

def Reading.absolute : Reading ℝ := ⟨Decoder.absolute, id⟩

namespace Machine

open Program

variable {machine : Machine ℝ} {sums : Point ℝ}

theorem step_absolute {command : Command ℝ} (agrees : machine.modes.Agrees sums command) :
    ((machine.under .absolute).step (command.absolute sums)).value =
      (machine.step command).value.under .absolute := by
  cases command with
  | format format =>
      exact step_under_of_parts
        (congrArg machine.modes.reading (machine.modes.decoder.setFormat_absolute format))
        rfl rfl rfl
  | units units =>
      exact step_under_of_parts
        (congrArg machine.modes.reading (machine.modes.decoder.setUnits_absolute units))
        rfl rfl rfl
  | defineAperture code shape => exact step_under_of_parts rfl rfl rfl rfl
  | operation fields action =>
      have same :
          machine.modes.MeansSame (Reading.absolute.decoder machine.modes.decoder) fields
          (fields.placed (fields.total sums)) := agrees
      exact step_under_operation same ⟨rfl, fun _ _ => rfl⟩ action
  | _ => exact step_under_of_neutral trivial

/-! ## The header -/

theorem foldl_total {header : List (Command ℝ)}
    (unplaced : ∀ command ∈ header, command.GivesNoPosition) :
    header.foldl Command.total sums = sums := by
  induction header with
  | nil => rfl
  | cons command rest induction =>
      rw [List.forall_mem_cons] at unplaced
      rw [List.foldl_cons, Command.total_of_givesNoPosition unplaced.1,
        induction unplaced.2]

theorem run_absolute_header {header : List (Command ℝ)}
    (unplaced : ∀ command ∈ header, command.GivesNoPosition) :
    ((machine.under .absolute).run (absoluteFrom sums header)).value =
      (machine.run header).value.under .absolute := by
  induction header generalizing machine sums with
  | nil => rfl
  | cons command rest induction =>
      rw [List.forall_mem_cons] at unplaced
      rw [absoluteFrom, run_cons, run_cons,
        step_absolute (Modes.agrees_of_givesNoPosition unplaced.1), induction unplaced.2]

theorem position_run_header {header : List (Command ℝ)}
    (unplaced : ∀ command ∈ header, command.GivesNoPosition) :
    (machine.run header).value.modes.position = machine.modes.position := by
  induction header generalizing machine with
  | nil => rfl
  | cons command rest induction =>
      rw [List.forall_mem_cons] at unplaced
      rw [run_cons, induction unplaced.2, position_step]
      split
      · rfl
      · cases command with
        | operation fields action =>
            obtain ⟨x, y⟩ := unplaced.1
            simp [moved, Modes.advance, Modes.target, x, y]
        | _ => rfl

/-- The first format is the one in force. -/
theorem format_run {commands : List (Command ℝ)}
    (running : (machine.run commands).value.modes.ended = false) :
    (machine.run commands).value.modes.decoder.format =
      if machine.modes.decoder.formatFixed then machine.modes.decoder.format
      else (commands.findSome? Command.format?).getD machine.modes.decoder.format := by
  induction commands generalizing machine with
  | nil => simp [run]
  | cons command rest induction =>
      have goesOn : machine.modes.ended = false := by
        by_contra ended
        rw [run_of_ended (eq_true_of_ne_false ended)] at running
        exact ended running
      rw [run_cons] at running ⊢
      rw [induction running, modes_step, Modes.step, goesOn]
      cases command with
      | format format =>
          simp only [Modes.after, Decoder.value_setFormat, List.findSome?_cons,
            Command.format?]
          cases fixed : machine.modes.decoder.formatFixed <;> simp [fixed]
      | units units =>
          simp only [Modes.after, Decoder.value_setUnits, List.findSome?_cons,
            Command.format?]
          cases machine.modes.decoder.unitsFixed <;> simp
      | _ => rfl

/-! ## Runs -/

theorem run_absolute_body {body : List (Command ℝ)}
    (ready : machine.modes.ended = false → machine.modes.Tracks sums)
    (pointed : ∀ command ∈ body, command.IsPointed) :
    ((machine.under .absolute).run (absoluteFrom sums body)).value =
      (machine.run body).value.under .absolute := by
  induction body generalizing machine sums with
  | nil => rfl
  | cons command rest induction =>
      rw [List.forall_mem_cons] at pointed
      cases ended : machine.modes.ended with
      | true =>
          have endedUnder : (machine.under .absolute).modes.ended = true := ended
          rw [run_of_ended ended, run_of_ended endedUnder]
          rfl
      | false =>
          have tracks := ready ended
          rw [absoluteFrom, run_cons, run_cons, step_absolute (tracks.agrees pointed.1)]
          apply induction _ pointed.2
          intro _
          rw [modes_step, Modes.step, if_neg (by simp [ended])]
          exact tracks.after pointed.1

/-- As far as it goes, the run of the positions is in the same place as the run of the
steps. -/
theorem run_take_absolute {header body : List (Command ℝ)}
    (given : IsIncremental header body) (count : ℕ) :
    (start.run ((absolute (header ++ body)).take count)).value =
      (start.run ((header ++ body).take count)).value.under .absolute := by
  have unplaced : ∀ command ∈ header.take count, command.GivesNoPosition :=
    fun command member => given.unplaced command (List.mem_of_mem_take member)
  have pointed : ∀ command ∈ body.take (count - header.length), command.IsPointed :=
    fun command member => given.pointed command (List.mem_of_mem_take member)
  have headed : (start.run (absoluteFrom .origin (header.take count))).value =
      (start.run (header.take count)).value.under .absolute :=
    @run_absolute_header start .origin _ unplaced
  rw [Program.absolute, take_absoluteFrom, List.take_append, absoluteFrom_append,
    run_append, run_append, foldl_total unplaced, headed]
  rcases Nat.le_total count header.length with within | beyond
  · rw [Nat.sub_eq_zero_of_le within]
    rfl
  · rw [List.take_of_length_le beyond]
    refine run_absolute_body ?_ pointed
    intro running
    obtain ⟨format, first, incremental⟩ := given.incremental
    refine Modes.tracks_origin ?_ (position_run_header given.unplaced)
    rw [format_run running, first]
    exact incremental

/-- In a layer with its header before the first position, steps may be replaced by their
sums: the current point is the same after every command, and the plot is the same. -/
theorem plot_absolute {header body : List (Command ℝ)}
    (given : IsIncremental header body) :
    (∀ count, (start.run ((absolute (header ++ body)).take count)).value.modes.position =
        (start.run ((header ++ body).take count)).value.modes.position) ∧
      (plot (absolute (header ++ body))).value = (plot (header ++ body)).value := by
  refine ⟨fun count => congrArg (fun machine => machine.modes.position)
    (run_take_absolute given count), ?_⟩
  have whole := run_take_absolute given (header ++ body).length
  rw [Program.absolute, take_absoluteFrom, List.take_length] at whole
  change (start.run (absolute (header ++ body))).value.finish.value =
    (start.run (header ++ body)).value.finish.value
  rw [Program.absolute, whole, finish_under]

def steppedHeader : List (Command ℝ) :=
  [.format ⟨.leading, .incremental, ⟨2, 4⟩, ⟨2, 4⟩⟩, .units .inches]

def steppedBody : List (Command ℝ) :=
  [.operation ⟨some (.decimal 1), some (.decimal 1), none, none⟩ (some .move),
   .beginRegion,
   .operation ⟨some (.decimal 1), none, none, none⟩ (some .draw),
   .counterclockwise,
   .operation ⟨some (.decimal (-1)), some (.decimal 1), some (.decimal 1), none⟩ none,
   .endRegion,
   .operation ⟨none, some (.decimal 1), none, none⟩ (some .flash)]

theorem plot_absolute_stepped :
    IsIncremental steppedHeader steppedBody ∧
      absolute (steppedHeader ++ steppedBody) =
        [.format ⟨.leading, .absolute, ⟨2, 4⟩, ⟨2, 4⟩⟩, .units .inches,
         .operation ⟨some (.decimal 1), some (.decimal 1), none, none⟩ (some .move),
         .beginRegion,
         .operation ⟨some (.decimal 2), none, none, none⟩ (some .draw),
         .counterclockwise,
         .operation ⟨some (.decimal 1), some (.decimal 2), some (.decimal 1), none⟩ none,
         .endRegion,
         .operation ⟨none, some (.decimal 3), none, none⟩ (some .flash)] ∧
      (plot (absolute (steppedHeader ++ steppedBody))).value =
        (plot (steppedHeader ++ steppedBody)).value := by
  have given : IsIncremental steppedHeader steppedBody := by
    refine ⟨?_, ⟨_, rfl, rfl⟩, ?_⟩
    · simp [steppedHeader, Command.GivesNoPosition]
    · simp [steppedBody, Command.IsPointed, RawCoordinate.HasPoint]
  refine ⟨given, ?_, (plot_absolute given).2⟩
  simp only [Program.absolute, steppedHeader, steppedBody, List.cons_append,
    List.nil_append, absoluteFrom, Command.absolute, Command.total,
    CoordinateFields.placed, CoordinateFields.total, RawCoordinate.amount,
    CoordinateFormat.absolute, Point.origin, Option.map_some, Option.map_none]
  norm_num

end Machine

end Photoplot
