import Photoplot.Proofs.Plot.Shorthand
import Photoplot.Proofs.Scalar.Scaling
import Photoplot.Proofs.Source.WellFormed

/-! # Widths of strokes

A stroke is as wide as the tool that was selected last, in the shape that was defined for
it last. The sign of its sizes is not looked at when it is defined, so that a width may be
negative: exactly if a size of that shape is. -/

namespace Photoplot

/-! ## The width of a shape -/

theorem Scalar.le_lesser_iff {K : Type} [Scalar K] [Scalar.Ordered K] {low left right : K}
    (leftComparable : left ≤ left) (rightComparable : right ≤ right) :
    low ≤ Scalar.lesser left right ↔ low ≤ left ∧ low ≤ right := by
  constructor
  · intro below
    exact ⟨Scalar.Ordered.le_trans below (Scalar.lesser_le_left leftComparable),
      Scalar.Ordered.le_trans below (Scalar.lesser_le_right rightComparable)⟩
  · rintro ⟨first, second⟩
    unfold Scalar.lesser
    rw [if_pos leftComparable]
    split <;> assumption

namespace ApertureShape

variable {K : Type}

def sizes : ApertureShape K → List K
  | .circle diameter => [diameter]
  | .rectangle width height => [width, height]
  | .obround width height => [width, height]
  | .polygon diameter _ _ => [diameter]
  | .custom _ _ => []

variable [Scalar K]

def strokeWidth : ApertureShape K → K
  | .circle diameter => diameter
  | .rectangle width height => Scalar.lesser width height
  | .obround width height => Scalar.lesser width height
  | .polygon diameter _ _ => diameter
  | .custom _ _ => Apertures.defaultWidth

variable [Scalar.Ordered K] [Scalar.Scaling K]

theorem nonneg_lesser_scaled_iff {width height : K} (units : Units)
    (finite : Scalar.isFinite width = true ∧ Scalar.isFinite height = true) :
    (0.0 : K) ≤ Scalar.lesser (width * units.scale) (height * units.scale) ↔
      0.0 ≤ width ∧ 0.0 ≤ height := by
  rw [Scalar.le_lesser_iff (Scalar.Scaling.comparable_scaled units finite.1)
    (Scalar.Scaling.comparable_scaled units finite.2),
    Scalar.Scaling.nonneg_scaled units finite.1,
    Scalar.Scaling.nonneg_scaled units finite.2]

/-- In whatever units a shape is given, its stroke is negative exactly if one of its sizes
is. -/
theorem nonneg_strokeWidth_scaled_iff {shape : ApertureShape K}
    (wellFormed : shape.WellFormed) (units : Units) :
    (0.0 : K) ≤ (shape.scaled units.scale).strokeWidth ↔ ∀ size ∈ shape.sizes,
    (0.0 : K) ≤ size := by
  cases shape with
  | circle diameter =>
      simpa [sizes, scaled, strokeWidth]
        using Scalar.Scaling.nonneg_scaled units wellFormed
  | rectangle width height =>
      simpa [sizes, scaled, strokeWidth] using nonneg_lesser_scaled_iff units wellFormed
  | obround width height =>
      simpa [sizes, scaled, strokeWidth] using nonneg_lesser_scaled_iff units wellFormed
  | polygon diameter vertices rotation =>
      simpa [sizes, scaled, strokeWidth]
        using Scalar.Scaling.nonneg_scaled units wellFormed.1
  | custom name values =>
      simpa [sizes, scaled, strokeWidth, Apertures.defaultWidth]
        using Scalar.Scaling.nonneg_tenth

end ApertureShape

theorem Apertures.value_strokeWidth {K : Type} [Scalar K] (apertures : Apertures K)
    (selected : Option ℕ) :
    (apertures.strokeWidth selected).value =
      (((selected.bind apertures.find?).map Aperture.shape).map
        ApertureShape.strokeWidth).getD defaultWidth := by
  cases selected with
  | none => rfl
  | some code =>
      simp only [strokeWidth, Option.bind_some]
      cases (apertures.find? code).map Aperture.shape with
      | none => rfl
      | some shape => cases shape <;> rfl

/-! ## What was selected and defined last -/

namespace Command

variable {K : Type}

def selected? : Command K → Option ℕ
  | .select code => some code
  | _ => none

def definition? (code : ℕ) : Command K → Option (ApertureShape K)
  | .defineAperture other shape => if other = code then some shape else none
  | _ => none

end Command

namespace Program

variable {K Value : Type}

def latest? (given : Command K → Option Value) (commands : List (Command K)) :
    Option Value :=
  commands.reverse.findSome? given

theorem latest?_concat (given : Command K → Option Value) (commands : List (Command K))
    (command : Command K) :
    latest? given (commands ++ [command]) =
      (given command).or (latest? given commands) := by
  rw [latest?, List.reverse_concat, List.findSome?_cons, latest?]
  cases given command <;> rfl

theorem exists_mem_of_latest? {given : Command K → Option Value}
    {commands : List (Command K)}
    {value : Value} (isLatest : latest? given commands = some value) :
    ∃ command ∈ commands, given command = some value := by
  obtain ⟨command, member, isValue⟩ := List.exists_of_findSome?_eq_some isLatest
  exact ⟨command, List.mem_reverse.mp member, isValue⟩

def selectedShape? (commands : List (Command K)) : Option (ApertureShape K) :=
  (latest? Command.selected? commands).bind fun code =>
    latest? (Command.definition? code) commands

theorem mem_of_mem_throughEnd {commands : List (Command K)} {command : Command K}
    (member : command ∈ throughEnd commands) : command ∈ commands := by
  induction commands with
  | nil => cases member
  | cons first rest induction =>
      cases first with
      | endOfFile =>
          rcases List.mem_singleton.mp member with rfl
          exact List.mem_cons_self
      | _ =>
          rcases List.mem_cons.mp member with rfl | later
          · exact List.mem_cons_self
          · exact List.mem_cons_of_mem _ (induction later)

end Program

namespace Machine

open Program

variable {K : Type} [PlaneScalar K]

/-- Before the end of the file, a definition of a tool replaces what was there. -/
theorem find?_step (machine : Machine K) (command : Command K) (code : ℕ) :
    (machine.step command).value.apertures.find? code =
      if machine.modes.ended then machine.apertures.find? code
      else
        let scale : K := machine.modes.decoder.units.scale
        ((command.definition? code).map fun shape => ⟨shape.scaled scale, scale⟩).or
          (machine.apertures.find? code) := by
  rw [Machine.step]
  split
  · rfl
  · rw [(machine.tools_execute command).1]
    cases command with
    | defineAperture other shape =>
        simp only [Apertures.value_define, Command.definition?]
        by_cases same : other = code
        · rw [same, Table.find?_insert_self, if_pos rfl, Option.map_some, Option.some_or]
        · rw [Table.find?_insert_of_ne _ _ (Ne.symm same), if_neg same, Option.map_none,
            Option.none_or]
    | _ => rfl

structure Recalls (machine : Machine K) (commands : List (Command K)) : Prop where
  aperture : machine.modes.aperture = latest? Command.selected? commands
  shape (code : ℕ) :
    Option.Rel
    (fun aperture shape => ∃ units : Units, aperture.shape = shape.scaled units.scale)
      (machine.apertures.find? code) (latest? (Command.definition? code) commands)

theorem recalls_start : (start (K := K)).Recalls [] where
  aperture := rfl
  shape _ := .none

/-- Each command before the end of the file is recalled. -/
theorem Recalls.step {machine : Machine K} {commands : List (Command K)}
    (recalls : machine.Recalls commands) (running : machine.modes.ended = false)
    (command : Command K) :
    (machine.step command).value.Recalls (commands ++ [command]) where
  aperture := by
    rw [modes_step, Modes.step, running, latest?_concat, ← recalls.aperture]
    cases command <;> rfl
  shape code := by
    rw [find?_step, running, latest?_concat, if_neg (by simp)]
    cases command.definition? code with
    | none => exact recalls.shape code
    | some shape => exact .some ⟨machine.modes.decoder.units, rfl⟩

theorem ended_step_of_ne {machine : Machine K} (running : machine.modes.ended = false)
    {command : Command K} (other : command ≠ .endOfFile) :
    (machine.step command).value.modes.ended = false := by
  rw [modes_step, Modes.step, running]
  cases command with
  | endOfFile => exact absurd rfl other
  | format format =>
      simp only [Bool.false_eq_true, if_false, Modes.after]
      exact running
  | _ => exact running

/-- What each command keeps while the layer runs holds of all of them through the end. -/
theorem holds_run {Holds : Machine K → List (Command K) → Prop} {Given : Command K → Prop}
    (holds_step : ∀ {machine commands}, Holds machine commands →
      machine.modes.ended = false →
      ∀ {command},
        Given command → Holds (machine.step command).value (commands ++ [command]))
    {machine : Machine K} {commands later : List (Command K)}
    (holds : Holds machine commands)
    (running : machine.modes.ended = false) (given : ∀ command ∈ later, Given command) :
    Holds (machine.run later).value (commands ++ throughEnd later) := by
  induction later generalizing machine commands with
  | nil =>
      rw [throughEnd, List.append_nil]
      exact holds
  | cons command rest induction =>
      rw [List.forall_mem_cons] at given
      have next := holds_step holds running given.1
      cases command with
      | endOfFile =>
          rw [run_cons, run_of_ended machine.ended_step_endOfFile]
          exact next
      | _ =>
          rw [run_cons, throughEnd, List.append_cons]
          · exact induction next (ended_step_of_ne running (by simp)) given.2
          · simp

theorem recalls_run (commands : List (Command K)) :
    ((start (K := K)).run commands).value.Recalls (throughEnd commands) :=
  @holds_run K _ Recalls (fun _ => True) (fun recalls running _ _ =>
    recalls.step running _)
    start [] commands recalls_start rfl fun _ _ => trivial

/-- The width of a stroke comes from the last shape of the tool, or it is the default
one. -/
theorem exists_value_strokeWidth {machine : Machine K} {commands : List (Command K)}
    (recalls : machine.Recalls commands) :
    (selectedShape? commands = none ∧
        (machine.apertures.strokeWidth machine.modes.aperture).value =
        Apertures.defaultWidth) ∨
      ∃ shape units, selectedShape? commands = some shape ∧
        (machine.apertures.strokeWidth machine.modes.aperture).value =
          (shape.scaled (Units.scale units)).strokeWidth := by
  rw [Apertures.value_strokeWidth, recalls.aperture, selectedShape?]
  cases latest? Command.selected? commands with
  | none => exact .inl ⟨rfl, rfl⟩
  | some code =>
      have related := recalls.shape code
      simp only [Option.bind_some]
      generalize machine.apertures.find? code = found at related ⊢
      generalize latest? (Command.definition? code) commands = last at related ⊢
      cases related with
      | none => exact .inl ⟨rfl, rfl⟩
      | some same =>
          obtain ⟨units, scaled⟩ := same
          exact .inr ⟨_, units, rfl, congrArg ApertureShape.strokeWidth scaled⟩

end Machine

def Canvas.Operation.width? {K : Type} : Canvas.Operation K → Option K
  | .strokeLine _ _ width => some width
  | .strokeArc _ _ width => some width
  | _ => none

namespace Machine

open Program

variable {K : Type} [PlaneScalar K]

theorem width_of_mem_operations {machine : Machine K} {command : Command K}
    {operation : Canvas.Operation K} (member : operation ∈ machine.operations command)
    {width : K} (isWidth : operation.width? = some width) :
    width = (machine.apertures.strokeWidth machine.modes.aperture).value := by
  cases (issues_of_mem_operations member).2 with
  | strokeLine => exact (Option.some.inj isWidth).symm
  | strokeArc => exact (Option.some.inj isWidth).symm
  | _ => cases isWidth

variable [Scalar.Ordered K] [Scalar.Scaling K] [Scalar.Counting K]

/-- After any part of a layer, strokes are as wide as the selected tool says, and this
width is negative exactly if the shape that was last defined for the tool has a negative
size. -/
theorem nonneg_strokeWidth_iff (text : Text) (commands : List (Command K))
    (part : commands <+: (ofBlocks (Block.scan text)).value) :
    let machine := (start.run commands).value
    let width := (machine.apertures.strokeWidth machine.modes.aperture).value
    ((0.0 : K) ≤ width ↔
        ∀ shape ∈ selectedShape? (throughEnd commands), ∀ size ∈ shape.sizes,
        (0.0 : K) ≤ size) ∧
      ∀ command, ∀ operation ∈ machine.operations command, ∀ drawn ∈ operation.width?,
        drawn = width := by
  intro machine width
  refine ⟨?_, fun command operation member drawn isWidth =>
    width_of_mem_operations member isWidth⟩
  rcases exists_value_strokeWidth (recalls_run commands) with
    ⟨none, isDefault⟩ | ⟨shape, units, isShape, isWidth⟩
  · have nonneg : (0.0 : K) ≤ width :=
      le_of_le_of_eq Scalar.Scaling.nonneg_tenth isDefault.symm
    simp [none, nonneg]
  · have wellFormed : shape.WellFormed := by
      obtain ⟨code, -, isLatest⟩ := Option.bind_eq_some_iff.mp isShape
      obtain ⟨command, member, defines⟩ := exists_mem_of_latest? isLatest
      have read := ofBlocks_wellFormed (Block.scan text) command
        (part.subset (mem_of_mem_throughEnd member))
      cases command with
      | defineAperture other found =>
          simp only [Command.definition?, Option.ite_none_right_eq_some,
            Option.some.injEq]
            at defines
          exact defines.2 ▸ read.2
      | _ => cases defines
    have signs : (0.0 : K) ≤ width ↔ ∀ size ∈ shape.sizes, (0.0 : K) ≤ size := by
      rw [← ApertureShape.nonneg_strokeWidth_scaled_iff wellFormed units]
      exact iff_of_eq (congrArg _ isWidth)
    rw [signs, isShape]
    simp

/-- A rectangular tool in inches, defined anew after it was selected. -/
theorem nonneg_strokeWidth_iff_rectangle :
    let commands : List (Command Float) :=
      [.units .inches, .defineAperture 10 (.circle (-1.0)), .select 10,
        .defineAperture 10 (.rectangle 2.0 1.0)]
    commands <+: (ofBlocks
        (Block.scan "%MOIN*%%ADD10C,-1*%D10*%ADD10R,2X1*%X1D01*".toList)).value ∧
      selectedShape? (throughEnd commands) = some (.rectangle 2.0 1.0) ∧
      (0.0 : Float) ≤ ((start.run commands).value.apertures.strokeWidth
        (start.run commands).value.modes.aperture).value := by
  intro commands
  have part : commands <+: (ofBlocks
      (Block.scan "%MOIN*%%ADD10C,-1*%D10*%ADD10R,2X1*%X1D01*".toList)).value := by
    decide +kernel
  have last : selectedShape? (throughEnd commands) = some (.rectangle 2.0 1.0) := by
    decide
  refine ⟨part, last, (nonneg_strokeWidth_iff _ commands part).1.mpr ?_⟩
  rw [last]
  decide

/-- A circle of negative size is defined and selected without a complaint. -/
theorem not_forall_nonneg_strokeWidth :
    ¬∀ (text : Text) (commands : List (Command Float)),
      commands <+: (ofBlocks (Block.scan text)).value →
        (0.0 : Float) ≤ ((start.run commands).value.apertures.strokeWidth
          (start.run commands).value.modes.aperture).value := by
  intro nonneg
  let commands : List (Command Float) := [.defineAperture 10 (.circle (-1.0)), .select 10]
  have part : commands <+: (ofBlocks (Block.scan "%ADD10C,-1*%D10*".toList)).value := by
    decide +kernel
  exact absurd (nonneg _ commands part) (by decide)

end Machine

end Photoplot
