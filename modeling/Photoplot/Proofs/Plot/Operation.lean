import Photoplot.Plot.Machine

/-! # Operations on the canvas

A command reaches the canvas as a list of operations, which depends on the modes
that are in force. What a run of commands draws is what its operations draw, one
after the other. -/

namespace Photoplot

namespace Canvas

inductive Edge (K : Type)
  | line (start finish : Point K)
  | arc (start finish : Point K) (curve : Arc K)
  deriving DecidableEq, Repr

namespace Edge

variable {K : Type} [PlaneScalar K]

def start : Edge K → Point K
  | .line start _ => start
  | .arc start _ _ => start

def points : Edge K → List (Point K)
  | .line _ finish => [finish]
  | .arc _ _ curve => curve.points.tail

def primitives : Edge K → List (Path.Primitive K)
  | .line _ finish => [.lineTo finish]
  | .arc _ finish curve =>
      let piece (large : Bool) (point : Point K) : Path.Primitive K :=
        .arcTo curve.radius large curve.isCounterclockwise point
      if curve.isFullCircle then
        [piece false (curve.pointAt (curve.start + curve.sweep / 2.0) curve.radius),
          piece false finish]
      else [piece curve.isLarge finish]

def extent : Edge K → List (Point K)
  | .line _ finish => [finish]
  | .arc _ finish curve => finish :: curve.extremes

end Edge

variable {K : Type} [PlaneScalar K]

def drawEdge (canvas : Canvas K) (edge : Edge K) : Canvas K :=
  canvas.regionEdge edge.start edge.points edge.primitives edge.extent

inductive Operation (K : Type)
  | breakChain
  | strokeLine (start finish : Point K) (width : K)
  | strokeArc (start : Point K) (arc : Arc K) (width : K)
  | stamp (primitives : List (Path.Primitive K))
  | beginRegion
  | drawEdge (edge : Edge K)
  | closeContour
  | endRegion
  | discardRegion
  deriving DecidableEq, Repr

def carryOut (canvas : Canvas K) : Operation K → Canvas K
  | .breakChain => canvas.breakChain
  | .strokeLine start finish width => canvas.strokeLine start finish width
  | .strokeArc start arc width => canvas.strokeArc start arc width
  | .stamp primitives => canvas.stamp primitives
  | .beginRegion => canvas.beginRegion
  | .drawEdge edge => canvas.drawEdge edge
  | .closeContour => canvas.closeContour
  | .endRegion => canvas.endRegion
  | .discardRegion => canvas.discardRegion

end Canvas

namespace Machine

open Canvas (Operation)

variable {K : Type} [PlaneScalar K]

/-! ## The operations of a command -/

def drawOperations (machine : Machine K) (origin : Point K)
    (fields : CoordinateFields K) :
    List (Operation K) :=
  let modes := machine.modes
  let arc := arc? modes origin fields
  if modes.regionOpen then
    match arc with
    | some arc => [.drawEdge (.arc origin modes.position arc)]
    | none => [.drawEdge (.line origin modes.position)]
  else if modes.polarity = .clear then []
  else
    let width := (machine.apertures.strokeWidth modes.aperture).value
    match arc with
    | some arc => [.strokeArc origin arc width]
    | none => [.strokeLine origin modes.position width]

def flashOperations (machine : Machine K) : List (Operation K) :=
  if machine.modes.regionOpen then []
  else if machine.modes.polarity = .clear then []
  else [.stamp (machine.selectedPad machine.modes.position).value]

def moved (machine : Machine K) (fields : CoordinateFields K) (action : Option Action) :
    Machine K :=
  { machine with
    modes :=
      { machine.modes.advance fields with action := action.getD machine.modes.action } }

def operations (machine : Machine K) (command : Command K) : List (Operation K) :=
  if machine.modes.ended then []
  else
    match command with
    | .operation fields action =>
        let moved := machine.moved fields action
        match action.getD machine.modes.action with
        | .move => if machine.modes.regionOpen then [.closeContour] else [.breakChain]
        | .draw => moved.drawOperations machine.modes.position fields
        | .flash => moved.flashOperations
    | .beginRegion => [.beginRegion]
    | .endRegion =>
        if machine.modes.regionOpen then
          if machine.modes.polarity = .clear then [.discardRegion] else [.endRegion]
        else []
    | _ => []

def trace (machine : Machine K) : List (Command K) → List (Operation K)
  | [] => []
  | command :: rest => machine.operations command ++
      (machine.step command).value.trace rest

/-- How a command comes to an operation. The current point is the one before the
command, `machine.moved` has the modes behind it. -/
inductive Issues (machine : Machine K) : Command K → Operation K → Prop
  | breakChain {fields : CoordinateFields K} {action : Option Action}
      (closed : machine.modes.regionOpen = false)
      (taken : action.getD machine.modes.action = .move) :
      Issues machine (.operation fields action) .breakChain
  | strokeLine {fields : CoordinateFields K} {action : Option Action}
      (closed : machine.modes.regionOpen = false) (dark : machine.modes.polarity = .dark)
      (taken : action.getD machine.modes.action = .draw)
      (straight : arc? (machine.moved fields action).modes machine.modes.position
        fields = none) :
      Issues machine (.operation fields action)
        (.strokeLine machine.modes.position (machine.moved fields action).modes.position
          (machine.apertures.strokeWidth machine.modes.aperture).value)
  | strokeArc {fields : CoordinateFields K} {action : Option Action} {arc : Arc K}
      (closed : machine.modes.regionOpen = false) (dark : machine.modes.polarity = .dark)
      (taken : action.getD machine.modes.action = .draw)
      (resolved : arc? (machine.moved fields action).modes machine.modes.position fields =
        some arc) :
      Issues machine (.operation fields action)
        (.strokeArc machine.modes.position arc
          (machine.apertures.strokeWidth machine.modes.aperture).value)
  | stamp {fields : CoordinateFields K} {action : Option Action}
      (closed : machine.modes.regionOpen = false) (dark : machine.modes.polarity = .dark)
      (taken : action.getD machine.modes.action = .flash) :
      Issues machine (.operation fields action)
        (.stamp ((machine.moved fields action).selectedPad
          (machine.moved fields action).modes.position).value)
  | closeContour {fields : CoordinateFields K} {action : Option Action}
      (opened : machine.modes.regionOpen = true)
      (taken : action.getD machine.modes.action = .move) :
      Issues machine (.operation fields action) .closeContour
  | line {fields : CoordinateFields K} {action : Option Action}
      (opened : machine.modes.regionOpen = true)
      (taken : action.getD machine.modes.action = .draw)
      (straight : arc? (machine.moved fields action).modes machine.modes.position
        fields = none) :
      Issues machine (.operation fields action)
        (.drawEdge
          (.line machine.modes.position (machine.moved fields action).modes.position))
  | arc {fields : CoordinateFields K} {action : Option Action} {arc : Arc K}
      (opened : machine.modes.regionOpen = true)
      (taken : action.getD machine.modes.action = .draw)
      (resolved : arc? (machine.moved fields action).modes machine.modes.position fields =
        some arc) :
      Issues machine (.operation fields action)
        (.drawEdge
          (.arc machine.modes.position (machine.moved fields action).modes.position arc))
  | beginRegion : Issues machine .beginRegion .beginRegion
  | discardRegion (opened : machine.modes.regionOpen = true)
      (clear : machine.modes.polarity = .clear) : Issues machine .endRegion .discardRegion
  | endRegion (opened : machine.modes.regionOpen = true)
      (dark : machine.modes.polarity = .dark) : Issues machine .endRegion .endRegion

theorem dark_of_not_clear {polarity : Polarity} (notClear : ¬polarity = .clear) :
    polarity = .dark := by
  cases polarity with
  | dark => rfl
  | clear => exact absurd rfl notClear

theorem issues_of_mem_drawOperations {machine : Machine K} {fields : CoordinateFields K}
    {action : Option Action} {operation : Operation K}
    (taken : action.getD machine.modes.action = .draw)
    (member : operation ∈
      (machine.moved fields action).drawOperations machine.modes.position fields) :
    machine.Issues (.operation fields action) operation := by
  simp only [drawOperations] at member
  split at member
  · rename_i opened
    split at member
    · rename_i arc resolved
      rcases List.mem_singleton.mp member with rfl
      exact .arc opened taken resolved
    · rename_i straight
      rcases List.mem_singleton.mp member with rfl
      exact .line opened taken straight
  · rename_i closed
    split at member
    · cases member
    · rename_i notClear
      have dark : machine.modes.polarity = .dark := dark_of_not_clear notClear
      split at member
      · rename_i arc resolved
        rcases List.mem_singleton.mp member with rfl
        exact .strokeArc (eq_false_of_ne_true closed) dark taken resolved
      · rename_i straight
        rcases List.mem_singleton.mp member with rfl
        exact .strokeLine (eq_false_of_ne_true closed) dark taken straight

theorem issues_of_mem_flashOperations {machine : Machine K} {fields : CoordinateFields K}
    {action : Option Action} {operation : Operation K}
    (taken : action.getD machine.modes.action = .flash)
    (member : operation ∈ (machine.moved fields action).flashOperations) :
    machine.Issues (.operation fields action) operation := by
  simp only [flashOperations] at member
  split at member
  · cases member
  · rename_i closed
    split at member
    · cases member
    · rename_i notClear
      rcases List.mem_singleton.mp member with rfl
      exact .stamp (eq_false_of_ne_true closed) (dark_of_not_clear notClear) taken

theorem issues_of_mem_operations {machine : Machine K} {command : Command K}
    {operation : Operation K} (member : operation ∈ machine.operations command) :
    machine.modes.ended = false ∧ machine.Issues command operation := by
  unfold operations at member
  split at member
  · cases member
  rename_i running
  refine ⟨eq_false_of_ne_true running, ?_⟩
  cases command with
  | operation fields action =>
      cases taken : action.getD machine.modes.action with
      | move =>
          simp only [taken] at member
          split at member
          · rename_i opened
            rcases List.mem_singleton.mp member with rfl
            exact .closeContour opened taken
          · rename_i closed
            rcases List.mem_singleton.mp member with rfl
            exact .breakChain (eq_false_of_ne_true closed) taken
      | draw =>
          simp only [taken] at member
          exact issues_of_mem_drawOperations taken member
      | flash =>
          simp only [taken] at member
          exact issues_of_mem_flashOperations taken member
  | beginRegion =>
      rcases List.mem_singleton.mp member with rfl
      exact .beginRegion
  | endRegion =>
      simp only at member
      split at member
      · rename_i opened
        split at member
        · rename_i clear
          rcases List.mem_singleton.mp member with rfl
          exact .discardRegion opened clear
        · rename_i notClear
          rcases List.mem_singleton.mp member with rfl
          exact .endRegion opened (dark_of_not_clear notClear)
      · cases member
  | _ => cases member

/-- Every operation of a run comes from a command, in the state that it meets. -/
theorem exists_issues_of_mem_trace {machine : Machine K} {commands : List (Command K)}
    {operation : Operation K} (member : operation ∈ machine.trace commands) :
    ∃ (current : Machine K) (command : Command K), current.Issues command operation := by
  induction commands generalizing machine with
  | nil => cases member
  | cons command rest induction =>
      rcases List.mem_append.mp member with own | later
      · exact ⟨machine, command, (issues_of_mem_operations own).2⟩
      · exact induction later

theorem length_operations (machine : Machine K) (command : Command K) :
    (machine.operations command).length ≤ 1 := by
  unfold operations
  split
  · simp
  · cases command with
    | operation fields action =>
        cases taken : action.getD machine.modes.action with
        | move =>
            simp only [taken]
            split <;> simp
        | draw =>
            simp only [taken, drawOperations]
            split
            · split <;> simp
            · split
              · simp
              · split <;> simp
        | flash =>
            simp only [taken, flashOperations]
            split
            · simp
            · split <;> simp
    | endRegion =>
        simp only
        split
        · split <;> simp
        · simp
    | _ => simp

theorem operations_eq (machine : Machine K) (command : Command K) :
    machine.operations command = [] ∨
      ∃ operation, machine.operations command = [operation] := by
  rcases Nat.le_one_iff_eq_zero_or_eq_one.mp (machine.length_operations command) with
      none | one
  · exact .inl (List.length_eq_zero_iff.mp none)
  · exact .inr (List.length_eq_one_iff.mp one)

/-! ## What a command leaves on the canvas -/

theorem canvas_draw (machine : Machine K) (origin : Point K)
    (fields : CoordinateFields K) :
    (machine.draw origin fields).value.canvas =
      (machine.drawOperations origin fields).foldl Canvas.carryOut machine.canvas := by
  simp only [draw, drawOperations]
  split
  · cases arc? machine.modes origin fields <;> rfl
  · split
    · rfl
    · cases arc? machine.modes origin fields <;> rfl

theorem modes_draw (machine : Machine K) (origin : Point K)
    (fields : CoordinateFields K) :
    (machine.draw origin fields).value.modes = machine.modes := by
  simp only [draw]
  split
  · rfl
  · split <;> rfl

theorem modes_flash (machine : Machine K) :
    machine.flash.value.modes = machine.modes := by
  unfold flash
  split <;> rfl

/-- An operation leaves all modes as they are after the move. -/
theorem modes_operate (machine : Machine K) (fields : CoordinateFields K)
    (action : Option Action) :
    (machine.operate fields action).value.modes =
      (machine.moved fields action).modes := by
  unfold operate
  cases taken : action.getD machine.modes.action with
  | move => simp [moved, taken]
  | draw => simp [moved, taken, modes_draw]
  | flash =>
      simp only [moved, taken]
      split
      · rfl
      · exact modes_flash _

theorem canvas_operate (machine : Machine K) (fields : CoordinateFields K)
    (action : Option Action) (running : machine.modes.ended = false) :
    (machine.operate fields action).value.canvas =
      (machine.operations (.operation fields action)).foldl
        Canvas.carryOut machine.canvas := by
  simp only [operate, operations, running]
  cases taken : action.getD machine.modes.action with
  | move =>
      have advanced : (machine.modes.advance fields).regionOpen =
          machine.modes.regionOpen := rfl
      cases opened : machine.modes.regionOpen <;> simp [advanced, opened, Canvas.carryOut]
  | draw => simp [moved, taken, canvas_draw]
  | flash =>
      simp only [moved, taken, flashOperations, flash]
      split
      · rfl
      · split <;> rfl

/-- The canvas after a command is the one that its operations leave. -/
theorem canvas_step (machine : Machine K) (command : Command K) :
    (machine.step command).value.canvas =
      (machine.operations command).foldl Canvas.carryOut machine.canvas := by
  unfold step
  split
  · rename_i ended
    simp [operations, ended]
  · rename_i running
    simp only [Bool.not_eq_true] at running
    cases command with
    | operation fields action => exact machine.canvas_operate fields action running
    | beginRegion =>
        simp only [execute, beginRegion, operations, running]
        split <;> rfl
    | endRegion =>
        simp only [execute, endRegion, operations, running]
        split
        · split <;> rfl
        · rfl
    | select code =>
        simp only [execute, operations, running]
        split <;> rfl
    | _ => simp [execute, operations, running]

theorem run_cons (machine : Machine K) (command : Command K) (rest : List (Command K)) :
    (machine.run (command :: rest)).value =
      ((machine.step command).value.run rest).value := rfl

theorem run_cons_bind (machine : Machine K) (command : Command K)
    (rest : List (Command K)) :
    machine.run (command :: rest) = machine.step command >>= fun next => next.run rest :=
  List.foldlM_cons

theorem run_append (machine : Machine K) (first second : List (Command K)) :
    (machine.run (first ++ second)).value =
      ((machine.run first).value.run second).value := by
  induction first generalizing machine with
  | nil => rfl
  | cons command rest induction => exact induction (machine.step command).value

theorem step_of_ended {machine : Machine K} (ended : machine.modes.ended = true)
    (command : Command K) : machine.step command = pure machine := by
  rw [step, if_pos ended]

theorem run_of_ended {machine : Machine K} (ended : machine.modes.ended = true)
    (commands : List (Command K)) : machine.run commands = pure machine := by
  induction commands with
  | nil => rfl
  | cons command rest induction =>
      rw [run_cons_bind, step_of_ended ended]
      exact induction

theorem ended_step_endOfFile (machine : Machine K) :
    (machine.step .endOfFile).value.modes.ended = true := by
  unfold step
  split
  · assumption
  · rfl

theorem trace_append (machine : Machine K) (first second : List (Command K)) :
    machine.trace (first ++ second) =
      machine.trace first ++ (machine.run first).value.trace second := by
  induction first generalizing machine with
  | nil => rfl
  | cons command rest induction =>
      rw [List.cons_append, trace, trace, induction, List.append_assoc, run_cons]

theorem canvas_run (machine : Machine K) (commands : List (Command K)) :
    (machine.run commands).value.canvas =
      (machine.trace commands).foldl Canvas.carryOut machine.canvas := by
  induction commands generalizing machine with
  | nil => rfl
  | cons command rest induction =>
      rw [run_cons, induction, canvas_step, trace, List.foldl_append]

omit [PlaneScalar K] in
/-- A region that is left open does not count. -/
theorem value_finish (machine : Machine K) :
    machine.finish.value =
      (if machine.modes.regionOpen then machine.canvas.discardRegion
        else machine.canvas).finish := by
  unfold finish
  split <;> rfl

end Machine

/-! ## What a command leaves of the modes and the tools -/

namespace Decoder

theorem value_setFormat (decoder : Decoder) (format : CoordinateFormat) :
    (decoder.setFormat format).value =
      if decoder.formatFixed then decoder
      else { decoder with format, formatFixed := true } := by
  unfold setFormat
  split
  · simp only
    split <;> rfl
  · rfl

theorem value_setUnits (decoder : Decoder) (units : Units) :
    (decoder.setUnits units).value =
      if decoder.unitsFixed then decoder
      else { decoder with units, unitsFixed := true } := by
  unfold setUnits
  split
  · simp only
    split <;> rfl
  · rfl

end Decoder

theorem Apertures.value_define {K : Type} [Scalar K]
    (apertures : Apertures K) (code : Nat) (shape : ApertureShape K) (units : Units) :
    (apertures.define code shape units).value =
      apertures.insert code ⟨shape.scaled units.scale, units.scale⟩ := by
  unfold define
  split <;> rfl

namespace Modes

variable {K : Type} [PlaneScalar K]

def after (modes : Modes K) : Command K → Modes K
  | .format format => { modes with decoder := (modes.decoder.setFormat format).value }
  | .units units => { modes with decoder := (modes.decoder.setUnits units).value }
  | .select code => { modes with aperture := some code }
  | .operation fields action =>
      { modes.advance fields with action := action.getD modes.action }
  | .linear => { modes with interpolation := .linear }
  | .clockwise => { modes with interpolation := .clockwise }
  | .counterclockwise => { modes with interpolation := .counterclockwise }
  | .beginRegion => { modes with regionOpen := true }
  | .endRegion => { modes with regionOpen := false }
  | .singleQuadrant => { modes with quadrants := .single }
  | .multiQuadrant => { modes with quadrants := .multi }
  | .polarity polarity => { modes with polarity }
  | .endOfFile => { modes with ended := true }
  | .defineAperture .. | .defineTemplate .. => modes

def step (modes : Modes K) (command : Command K) : Modes K :=
  if modes.ended then modes else modes.after command

end Modes

namespace Machine

variable {K : Type} [PlaneScalar K]

theorem modes_execute (machine : Machine K) (command : Command K) :
    (machine.execute command).value.modes = machine.modes.after command := by
  cases command with
  | operation fields action => exact modes_operate machine fields action
  | beginRegion =>
      simp only [execute, beginRegion]
      split <;> rfl
  | endRegion =>
      simp only [execute, endRegion]
      split
      · rfl
      · rename_i closed
        have same : machine.modes.regionOpen = false := eq_false_of_ne_true closed
        simp only [Modes.after, ← same]
        rfl
  | select code =>
      simp only [execute]
      split <;> rfl
  | _ => rfl

/-- The modes go their own way, whatever the tools and the canvas are. -/
theorem modes_step (machine : Machine K) (command : Command K) :
    (machine.step command).value.modes = machine.modes.step command := by
  unfold step Modes.step
  split
  · rfl
  · exact machine.modes_execute command

theorem modes_run (machine : Machine K) (commands : List (Command K)) :
    (machine.run commands).value.modes = commands.foldl Modes.step machine.modes := by
  induction commands generalizing machine with
  | nil => rfl
  | cons command rest induction => rw [run_cons, induction, modes_step, List.foldl_cons]

omit [PlaneScalar K] in
theorem eq_of_parts {machine other : Machine K} (modes : machine.modes = other.modes)
    (apertures : machine.apertures = other.apertures)
    (templates : machine.templates = other.templates)
    (canvas : machine.canvas = other.canvas) :
    machine = other := by
  cases machine
  cases other
  simp_all

/-- An operation changes the modes and the canvas, not the tools. -/
theorem tools_operate (machine : Machine K) (fields : CoordinateFields K)
    (action : Option Action) :
    (machine.operate fields action).value.apertures = machine.apertures ∧
      (machine.operate fields action).value.templates = machine.templates := by
  unfold operate
  cases action.getD machine.modes.action with
  | move => exact ⟨rfl, rfl⟩
  | draw =>
      simp only [draw]
      split
      · exact ⟨rfl, rfl⟩
      · split <;> exact ⟨rfl, rfl⟩
  | flash =>
      simp only [flash]
      split
      · exact ⟨rfl, rfl⟩
      · split <;> exact ⟨rfl, rfl⟩

/-- Only definitions change the tools. -/
theorem tools_execute (machine : Machine K) (command : Command K) :
    (machine.execute command).value.apertures =
        (match command with
        | .defineAperture code shape =>
            (machine.apertures.define code shape machine.modes.decoder.units).value
        | _ => machine.apertures) ∧
      (machine.execute command).value.templates =
        (match command with
        | .defineTemplate name body =>
            machine.templates.insert name (Template.read (K := K) name body).value
        | _ => machine.templates) := by
  cases command with
  | operation fields action => exact machine.tools_operate fields action
  | beginRegion =>
      simp only [execute, beginRegion]
      split <;> exact ⟨rfl, rfl⟩
  | endRegion =>
      simp only [execute, endRegion]
      split <;> exact ⟨rfl, rfl⟩
  | select code =>
      simp only [execute]
      split <;> exact ⟨rfl, rfl⟩
  | _ => exact ⟨rfl, rfl⟩

/-- Only the commands of a region, before the end of the file, open or close one. -/
theorem regionOpen_step (machine : Machine K) (command : Command K) :
    (machine.step command).value.modes.regionOpen =
      if machine.modes.ended then machine.modes.regionOpen
      else
        match command with
        | .beginRegion => true
        | .endRegion => false
        | _ => machine.modes.regionOpen := by
  rw [modes_step, Modes.step]
  split
  · rfl
  · cases command <;> rfl

theorem position_step (machine : Machine K) (command : Command K) :
    (machine.step command).value.modes.position =
      if machine.modes.ended then machine.modes.position
      else
        match command with
        | .operation fields action => (machine.moved fields action).modes.position
        | _ => machine.modes.position := by
  rw [modes_step, Modes.step]
  split
  · rfl
  · cases command <;> rfl

end Machine

end Photoplot
