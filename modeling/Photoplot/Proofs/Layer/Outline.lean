import Photoplot.Proofs.Layer.Succession
import Photoplot.Proofs.Plot.Chain
import Photoplot.Proofs.Scalar.Length

/-! # Board outlines

An outline that goes around polygons, one after the other, gives these polygons back.
What a program draws is described by its course: the operations that are carried out,
each with the point that it leads to. -/

namespace Photoplot

open PlaneScalar (Measured)

/-! ## Polygons -/

namespace Contour

variable {K : Type} [PlaneScalar K]

structure IsPolygon (contour : Contour K) : Prop where
  enough : 3 ≤ contour.length
  finite : ∀ vertex ∈ contour, vertex.IsFinite = true
  apart : ∀ side ∈ contour.edges, degenerateLength ≤ side.2.distance side.1

def returning (contour : Contour K) : List (Point K) := contour ++ contour.head?.toList

theorem isChain_of_zip {α : Type} {related : α → α → Prop} (items : List α) (last : α)
    (pairs : ∀ pair ∈ items.zip (items.tail ++ [last]), related pair.1 pair.2) :
    (items ++ [last]).IsChain related := by
  induction items with
  | nil => exact .singleton last
  | cons first rest induction =>
      cases rest with
      | nil => exact .cons_cons (pairs (first, last) (by simp)) (.singleton last)
      | cons second others =>
          refine .cons_cons (pairs (first, second) (by simp)) (induction ?_)
          intro pair member
          exact pairs pair (List.mem_cons_of_mem _ member)

/-- Each vertex is drawn from the one before it. -/
theorem IsPolygon.isChain {first : Point K} {rest : List (Point K)}
    (polygonal : IsPolygon (first :: rest)) :
    (first :: (rest ++ [first])).IsChain
      fun start finish => degenerateLength ≤ finish.distance start :=
  isChain_of_zip (first :: rest) first polygonal.apart

/-- A polygon drawn back to its first vertex is a closed chain. -/
theorem IsPolygon.closedChain [Measured K] {contour : Contour K}
    (polygonal : contour.IsPolygon) :
    Plot.closedChain? Layer.closingTolerance contour.returning = some contour := by
  cases contour with
  | nil => cases polygonal.enough
  | cons first rest =>
      have long : 4 ≤ (first :: (rest ++ [first])).length := by
        have enough := polygonal.enough
        simp only [List.length_cons, List.length_append, List.length_nil] at enough ⊢
        omega
      have back : first.distance first ≤ Layer.closingTolerance := by
        rw [Point.distance_self_of_isFinite (polygonal.finite first List.mem_cons_self)]
        exact Measured.zero_le_thousandth
      have isLast : (first :: (rest ++ [first])).getLast? = some first := by
        rw [← List.cons_append]
        exact List.getLast?_concat
      have front : (first :: (rest ++ [first])).dropLast = first :: rest := by
        rw [← List.cons_append]
        exact List.dropLast_concat
      change Plot.closedChain? Layer.closingTolerance (first :: (rest ++ [first])) = _
      simp only [Plot.closedChain?, List.head?_cons, isLast, long, back, and_self,
        if_true, front]

end Contour

/-! ## Courses -/

namespace Modes

variable {K : Type} [PlaneScalar K]

/-- What a command does and where it leads, if it is carried out. A draw that gives no
coordinate goes nowhere; all that it does is to choose what operations do from now on. -/
def leg? (modes : Modes K) : Command K → Option (Action × Point K)
  | .operation fields action =>
      let taken := action.getD modes.action
      if modes.ended ∨ taken = .draw ∧ fields.x.isNone ∧ fields.y.isNone then none
      else some (taken, (modes.advance fields).position)
  | _ => none

def course (modes : Modes K) : List (Command K) → List (Action × Point K)
  | [] => []
  | command :: rest => (modes.leg? command).toList ++ (modes.step command).course rest

def IsPlain (modes : Modes K) : Command K → Prop
  | .operation _ action =>
      action.getD modes.action = .draw →
        modes.interpolation = .linear ∧ modes.polarity = .dark
  | .beginRegion => False
  | _ => True

instance (modes : Modes K) : (command : Command K) → Decidable (modes.IsPlain command)
  | .operation _ _ => inferInstanceAs (Decidable (_ → _))
  | .beginRegion => inferInstanceAs (Decidable False)
  | .format _ | .units _ | .defineAperture _ _ | .defineTemplate _ _ | .select _ | .linear
  | .clockwise | .counterclockwise | .endRegion | .singleQuadrant
      | .multiQuadrant | .polarity _
  | .endOfFile => inferInstanceAs (Decidable True)

inductive IsPlainRun : Modes K → List (Command K) → Prop
  | nil (modes : Modes K) : IsPlainRun modes []
  | cons {modes : Modes K} {command : Command K} {rest : List (Command K)}
      (plain : modes.ended = false → modes.IsPlain command)
      (next : IsPlainRun (modes.step command) rest) : IsPlainRun modes (command :: rest)

theorem isPlainRun_cons {modes : Modes K} {command : Command K}
    {rest : List (Command K)} :
    modes.IsPlainRun (command :: rest) ↔
      (modes.ended = false → modes.IsPlain command) ∧
      (modes.step command).IsPlainRun rest := by
  constructor
  · intro run
    cases run with
    | cons plain next => exact ⟨plain, next⟩
  · exact fun both => .cons both.1 both.2

instance decidableIsPlainRun : (modes : Modes K) → (commands : List (Command K)) →
    Decidable (modes.IsPlainRun commands)
  | modes, [] => isTrue (.nil modes)
  | modes, command :: rest =>
      @decidable_of_iff' _ _ isPlainRun_cons
        (@instDecidableAnd _ _ inferInstance
          (decidableIsPlainRun (modes.step command) rest))

end Modes

/-- The course goes around polygons, one after the other: a move to the first vertex, and
draws to all others and back. A move with another one behind it does not count. -/
inductive Rounds {K : Type} [PlaneScalar K] :
    List (Contour K) → List (Action × Point K) → Prop
  | nil : Rounds [] []
  | move {polygons : List (Contour K)} {course : List (Action × Point K)}
      {place : Point K}
      (finite : place.IsFinite = true) (rounds : Rounds polygons course) :
      Rounds polygons ((.move, place) :: course)
  | polygon {first : Point K} {rest : List (Point K)} {polygons : List (Contour K)}
      {course : List (Action × Point K)} (rounds : Rounds polygons course) :
      Rounds ((first :: rest) :: polygons)
        ((.move, first) :: ((rest ++ [first]).map fun place => (.draw, place)) ++ course)

/-! ## Steps along a course -/

namespace Machine

open Canvas (counted)

variable {K : Type} [PlaneScalar K]

def opened (machine : Machine K) : List (Point K) :=
  if machine.canvas.chain.isEmpty then [machine.modes.position] else machine.canvas.chain

def AtEnd (machine : Machine K) : Prop :=
  machine.canvas.chain = [] ∨ machine.canvas.chain.getLast? = some machine.modes.position

theorem arc?_eq_none {machine : Machine K}
    (linear : machine.modes.interpolation = .linear)
    (fields : CoordinateFields K) (action : Option Action) :
    arc? (machine.moved fields action).modes machine.modes.position fields = none := by
  have same : (machine.moved fields action).modes.interpolation = .linear := linear
  simp only [arc?, same]

/-- Only operations, and the commands of a region, are for the canvas. -/
theorem operations_of_not_operation {machine : Machine K} {command : Command K}
    (plain : machine.modes.ended = false → machine.modes.IsPlain command)
    (closed : machine.modes.regionOpen = false)
    (other : ∀ fields action, command ≠ .operation fields action) :
    machine.operations command = [] := by
  cases running : machine.modes.ended with
  | true => simp [operations, running]
  | false =>
      cases command with
      | operation fields action => exact absurd rfl (other fields action)
      | beginRegion => exact (plain running).elim
      | endRegion => simp [operations, closed]
      | _ => simp [operations]

/-- A command without a leg leaves the canvas and the current point alone. -/
theorem step_of_leg_eq_none [Measured K] {machine : Machine K} {command : Command K}
    (plain : machine.modes.ended = false → machine.modes.IsPlain command)
    (closed : machine.modes.regionOpen = false)
    (finite : machine.modes.position.IsFinite = true)
    (quiet : machine.modes.leg? command = none) :
    (machine.step command).value.canvas = machine.canvas ∧
      (machine.step command).value.modes.position = machine.modes.position := by
  cases running : machine.modes.ended with
  | true => simp [step, running]
  | false =>
      cases command with
      | operation fields action =>
          simp only [Modes.leg?, running, Bool.false_eq_true, false_or, ite_eq_left_iff,
            reduceCtorEq, imp_false, not_not, Option.isNone_iff_eq_none] at quiet
          rcases quiet with ⟨taken, noX, noY⟩
          have stays : (machine.modes.advance fields).position =
              machine.modes.position := by
            simp [Modes.advance, Modes.target, noX, noY]
          rcases plain running taken with ⟨linear, dark⟩
          refine ⟨?_, (position_operation running fields action).trans stays⟩
          rcases canvas_step_draw running closed dark taken with
            ⟨-, -, same⟩ | ⟨curved | long, -⟩
          · exact same
          · exact absurd (arc?_eq_none linear fields action) curved
          · refine absurd ?_ long
            change (machine.modes.advance fields).position.distance _ < _
            rw [stays, Point.distance_self_of_isFinite finite]
            exact Measured.zero_lt_degenerateLength
      | _ =>
          refine ⟨?_, ?_⟩
          · rw [canvas_step, operations_of_not_operation plain closed (by simp)]
            rfl
          · rw [position_step]
            split <;> rfl

theorem eq_operation_of_leg {modes : Modes K} {command : Command K} {taken : Action}
    {place : Point K} (leg : modes.leg? command = some (taken, place)) :
    modes.ended = false ∧ ∃ fields action, command = .operation fields action ∧
      action.getD modes.action = taken ∧ (modes.advance fields).position = place := by
  cases command with
  | operation fields action =>
      simp only [Modes.leg?] at leg
      split at leg
      · cases leg
      · rename_i carried
        rcases Option.some.inj leg with ⟨⟩
        rw [not_or, Bool.not_eq_true] at carried
        exact ⟨carried.1, fields, action, rfl, rfl, rfl⟩
  | _ => cases leg

theorem step_of_move {machine : Machine K} {command : Command K} {place : Point K}
    (closed : machine.modes.regionOpen = false)
    (leg : machine.modes.leg? command = some (.move, place)) :
    (machine.step command).value.canvas = machine.canvas.breakChain ∧
      (machine.step command).value.modes.position = place := by
  rcases eq_operation_of_leg leg with ⟨running, fields, action, rfl, taken, rfl⟩
  refine ⟨?_, position_operation running fields action⟩
  rw [canvas_step]
  simp [operations, running, taken, closed, Canvas.carryOut]

/-- A draw from the end of the chain adds one point to it. -/
theorem step_of_draw [Measured K] {machine : Machine K} {command : Command K}
    {place : Point K}
    (plain : machine.modes.ended = false → machine.modes.IsPlain command)
    (closed : machine.modes.regionOpen = false)
    (finite : machine.modes.position.IsFinite = true)
    (atEnd : machine.AtEnd) (leg : machine.modes.leg? command = some (.draw, place))
    (apart : degenerateLength ≤ place.distance machine.modes.position) :
    (machine.step command).value.canvas.chain = machine.opened ++ [place] ∧
      (machine.step command).value.canvas.plot.centerlines =
      machine.canvas.plot.centerlines ∧
      (machine.step command).value.modes.position = place := by
  rcases eq_operation_of_leg leg with ⟨running, fields, action, rfl, taken, rfl⟩
  rcases plain running taken with ⟨linear, dark⟩
  have straight := arc?_eq_none linear fields action
  have points : machine.strokePoints fields action =
      [(machine.modes.advance fields).position] := by
    rw [strokePoints, straight]
    rfl
  have extended : (machine.canvas.extendChain machine.modes.position
      [(machine.modes.advance fields).position]) =
        { machine.canvas with
          chain := machine.opened ++ [(machine.modes.advance fields).position] } := by
    rcases atEnd with none | isLast
    · rw [Canvas.extendChain_of_nil none]
      simp [opened, none]
    · have together : Canvas.Together machine.modes.position machine.modes.position := by
        rw [Canvas.Together, Point.distance_self_of_isFinite finite]
        exact Measured.zero_lt_degenerateLength
      have some : machine.canvas.chain ≠ [] := by
        rintro none
        rw [none] at isLast
        cases isLast
      rw [Canvas.extendChain_of_together isLast together]
      simp [opened, some]
  rcases canvas_step_draw running closed dark taken with
      ⟨-, short, -⟩ | ⟨-, _, _, _, drawn⟩
  · exact absurd short (Measured.not_lt_of_le apart)
  · rw [drawn, points, extended]
    exact ⟨rfl, rfl, position_operation running fields action⟩

theorem regionOpen_step_of_plain {machine : Machine K} {command : Command K}
    (plain : machine.modes.ended = false → machine.modes.IsPlain command)
    (closed : machine.modes.regionOpen = false) :
    (machine.step command).value.modes.regionOpen = false := by
  rw [regionOpen_step]
  cases running : machine.modes.ended with
  | true => simp [closed]
  | false =>
      cases command with
      | beginRegion => exact (plain running).elim
      | _ => simp [closed]

/-! ## Runs along a course -/

omit [PlaneScalar K] in
theorem counted_opened (machine : Machine K) :
    counted machine.opened = counted machine.canvas.chain := by
  unfold opened
  split
  · rename_i none
    simp [counted, List.isEmpty_iff.mp none]
  · rfl

structure Ahead (machine : Machine K) (commands : List (Command K))
    (pending : List (Point K)) (polygons : List (Contour K)) : Prop where
  plain : machine.modes.IsPlainRun commands
  closed : machine.modes.regionOpen = false
  atEnd : machine.AtEnd
  finite : ∀ place ∈ machine.modes.position :: pending, place.IsFinite = true
  apart : (machine.modes.position :: pending).IsChain
    fun start finish => degenerateLength ≤ finish.distance start
  polygonal : ∀ polygon ∈ polygons, polygon.IsPolygon
  follows : ∃ course, Rounds polygons course ∧
    machine.modes.course commands = (pending.map fun place => (.draw, place)) ++ course

def outcome (machine : Machine K) (pending : List (Point K))
    (polygons : List (Contour K)) :
    List (List (Point K)) :=
  machine.canvas.plot.centerlines ++ counted (machine.opened ++ pending) ++
    polygons.map Contour.returning

section

variable {machine : Machine K} {command : Command K} {rest : List (Command K)}
  {pending : List (Point K)} {polygons : List (Contour K)}

theorem Ahead.isPlain (ahead : machine.Ahead (command :: rest) pending polygons) :
    machine.modes.ended = false → machine.modes.IsPlain command :=
  (Modes.isPlainRun_cons.mp ahead.plain).1

theorem Ahead.here {commands : List (Command K)}
    (ahead : machine.Ahead commands pending polygons) :
    machine.modes.position.IsFinite = true :=
  ahead.finite _ List.mem_cons_self

theorem Ahead.next (ahead : machine.Ahead (command :: rest) pending polygons) :
    (machine.step command).value.modes.IsPlainRun rest ∧
      (machine.step command).value.modes.regionOpen = false := by
  refine ⟨?_, regionOpen_step_of_plain ahead.isPlain ahead.closed⟩
  rw [modes_step]
  exact (Modes.isPlainRun_cons.mp ahead.plain).2

theorem Ahead.stay [Measured K] (ahead : machine.Ahead (command :: rest) pending polygons)
    (quiet : machine.modes.leg? command = none) :
    (machine.step command).value.Ahead rest pending polygons ∧
      (machine.step command).value.outcome pending polygons =
        machine.outcome pending polygons := by
  rcases step_of_leg_eq_none ahead.isPlain ahead.closed ahead.here quiet with
      ⟨canvas, position⟩
  rcases ahead.follows with ⟨course, rounds, follows⟩
  rw [Modes.course, quiet, ← modes_step] at follows
  refine ⟨⟨ahead.next.1, ahead.next.2, ?_, ?_, ?_, ahead.polygonal,
    course, rounds, follows⟩, ?_⟩
  · rw [AtEnd, canvas, position]
    exact ahead.atEnd
  · rw [position]
    exact ahead.finite
  · rw [position]
    exact ahead.apart
  · rw [outcome, outcome, opened, opened, canvas, position]

theorem Ahead.draw [Measured K] {place : Point K}
    (ahead : machine.Ahead (command :: rest) (place :: pending) polygons)
    (leg : machine.modes.leg? command = some (.draw, place)) :
    (machine.step command).value.Ahead rest pending polygons ∧
      (machine.step command).value.outcome pending polygons =
        machine.outcome (place :: pending) polygons := by
  rcases List.isChain_cons_cons.mp ahead.apart with ⟨apart, others⟩
  rcases step_of_draw ahead.isPlain ahead.closed ahead.here ahead.atEnd leg apart with
    ⟨chain, centerlines, position⟩
  rcases ahead.follows with ⟨course, rounds, follows⟩
  rw [Modes.course, leg, ← modes_step] at follows
  refine ⟨⟨ahead.next.1, ahead.next.2, .inr ?_, ?_, ?_, ahead.polygonal, course, rounds,
    (List.cons.inj follows).2⟩, ?_⟩
  · rw [chain, position, List.getLast?_concat]
  · rw [position]
    exact fun place member => ahead.finite place (List.mem_cons_of_mem _ member)
  · rwa [position]
  · have longer : (machine.step command).value.opened = machine.opened ++ [place] := by
      simp [opened, chain]
    rw [outcome, outcome, centerlines, longer, List.append_assoc machine.opened]
    rfl

/-- Behind a move the chain that was open is counted, and another one is open. -/
theorem outcome_of_move {place : Point K} (closed : machine.modes.regionOpen = false)
    (leg : machine.modes.leg? command = some (.move, place)) (pending : List (Point K)) :
    (machine.step command).value.outcome pending polygons =
      machine.canvas.plot.centerlines ++ counted machine.opened ++
      counted (place :: pending) ++
        polygons.map Contour.returning := by
  rcases step_of_move closed leg with ⟨canvas, position⟩
  rw [outcome, opened, canvas, Canvas.chain_breakChain, Canvas.centerlines_breakChain,
    counted_opened, position]
  rfl

theorem Ahead.move {place : Point K} (ahead : machine.Ahead (command :: rest) [] polygons)
    (leg : machine.modes.leg? command = some (.move, place)) :
    ∃ pending others, (machine.step command).value.Ahead rest pending others ∧
      (machine.step command).value.outcome pending others =
      machine.outcome [] polygons := by
  rcases step_of_move ahead.closed leg with ⟨canvas, position⟩
  have fresh : (machine.step command).value.AtEnd := by
    left
    rw [canvas, Canvas.chain_breakChain]
  rcases ahead.follows with ⟨course, rounds, follows⟩
  rw [Modes.course, leg, ← modes_step] at follows
  cases rounds with
  | nil => cases follows
  | @move _ course spot finite rounds =>
      rcases List.cons.inj follows with ⟨same, after⟩
      rcases (Prod.mk.inj same).2 with rfl
      refine ⟨[], polygons,
        ⟨ahead.next.1, ahead.next.2, fresh, ?_, ?_, ahead.polygonal,
          course, rounds, after⟩, ?_⟩
      · rw [position]
        simpa using finite
      · exact .singleton _
      · rw [outcome_of_move ahead.closed leg, outcome, List.append_nil machine.opened]
        simp [counted]
  | @polygon first others polygons course rounds =>
      rcases List.cons.inj follows with ⟨same, after⟩
      rcases (Prod.mk.inj same).2 with rfl
      have own := ahead.polygonal _ List.mem_cons_self
      refine ⟨others ++ [place], polygons, ⟨ahead.next.1, ahead.next.2, fresh, ?_, ?_,
        fun polygon member => ahead.polygonal polygon (List.mem_cons_of_mem _ member),
        course, rounds, after⟩, ?_⟩
      · rw [position]
        intro spot member
        simp only [List.mem_cons, List.mem_append, List.not_mem_nil, or_false] at member
        rcases member with rfl | member | rfl
        · exact own.finite _ List.mem_cons_self
        · exact own.finite _ (List.mem_cons_of_mem _ member)
        · exact own.finite _ List.mem_cons_self
      · rw [position]
        exact own.isChain
      · rw [outcome_of_move ahead.closed leg, outcome, List.append_nil machine.opened]
        simp [counted, Contour.returning]

/-- No command changes what will have been drawn in the end. -/
theorem Ahead.step [Measured K]
    (ahead : machine.Ahead (command :: rest) pending polygons) :
    ∃ left others, (machine.step command).value.Ahead rest left others ∧
      (machine.step command).value.outcome left others =
      machine.outcome pending polygons := by
  cases leg : machine.modes.leg? command with
  | none => exact ⟨pending, polygons, ahead.stay leg⟩
  | some carried =>
      rcases carried with ⟨taken, place⟩
      rcases ahead.follows with ⟨course, rounds, follows⟩
      rw [Modes.course, leg] at follows
      -- The draws that are left come first; only then the course moves to another
      -- polygon.
      cases pending with
      | cons drawn left =>
          rcases (List.cons.inj follows).1 with ⟨⟩
          exact ⟨left, polygons, ahead.draw leg⟩
      | nil =>
          have moves : taken = .move := by
            cases rounds with
            | nil => cases follows
            | move => exact (Prod.mk.inj (List.cons.inj follows).1).1
            | polygon => exact (Prod.mk.inj (List.cons.inj follows).1).1
          exact ahead.move (moves ▸ leg)

end

theorem Ahead.centerlines_run [Measured K] {commands : List (Command K)}
    {machine : Machine K} {pending : List (Point K)} {polygons : List (Contour K)}
    (ahead : machine.Ahead commands pending polygons) :
    (machine.run commands).value.canvas.finish.centerlines =
      machine.outcome pending polygons := by
  induction commands generalizing machine pending polygons with
  | nil =>
      rcases ahead.follows with ⟨course, rounds, follows⟩
      rcases List.append_eq_nil_iff.mp follows.symm with ⟨noDraw, rfl⟩
      rcases List.map_eq_nil_iff.mp noDraw with rfl
      cases rounds
      rw [outcome, List.append_nil, counted_opened, List.map_nil, List.append_nil]
      exact Canvas.centerlines_breakChain machine.canvas
  | cons command rest induction =>
      rcases ahead.step with ⟨left, others, next, same⟩
      rw [run_cons, induction next, same]

end Machine

namespace Layer

variable {K : Type} [PlaneScalar K] [Measured K]

/-- A text that draws polygons, and nothing else, describes the plate with these contours:
each of them begins at the vertex that was moved to, and they are in the order in which
they were drawn. -/
theorem plate_of_rounds {text : Text} {polygons : List (Contour K)} (ended : '*' ∈ text)
    (some : polygons ≠ []) (polygonal : ∀ polygon ∈ polygons, polygon.IsPolygon)
    (plain : Modes.start.IsPlainRun (commands (K := K) text).value)
    (rounds : Rounds polygons (Modes.start.course (commands text).value)) :
    (plate text).value = .some (.outline polygons) := by
  have ahead : Machine.start.Ahead (commands text).value [] polygons :=
    ⟨plain, rfl, .inl rfl, by
      simpa [Machine.start, Modes.start] using Point.isFinite_origin,
      .singleton _, polygonal, _, rounds, rfl⟩
  have centerlines : (Machine.plot (commands (K := K) text).value).value.centerlines =
      polygons.map Contour.returning := by
    change (Machine.start.run _).value.finish.value.centerlines = _
    have lines := ahead.centerlines_run
    rw [Machine.value_finish]
    -- A region that is still open is dropped, and the chain is counted all the same.
    split
    · refine Eq.trans ?_ lines
      rw [Canvas.finish, Canvas.finish, Canvas.centerlines_breakChain,
        Canvas.centerlines_breakChain]
      rfl
    · exact lines
  have contours : (Machine.plot (commands (K := K) text).value).value.closedCenterlines
      closingTolerance = polygons := by
    rw [Plot.closedCenterlines, centerlines, List.filterMap_map]
    refine Eq.trans ?_ List.filterMap_some
    exact List.filterMap_congr fun polygon member =>
      (polygonal polygon member).closedChain
  have drawn : (commands (K := K) text).value ≠ [] := by
    intro none
    rw [none] at rounds
    cases rounds
    exact some rfl
  have notEmpty : polygons.isEmpty = false := by
    simpa using some
  simp only [plate, Noted.value_bind, plot_eq_ok ended drawn, contours, notEmpty]
  rfl

/-- A rectangle and a triangle that touch, with the aperture changed on the way and most
of the draws without a word for it. -/
def touching : Text :=
  "%FSLAX24Y24*MOMM*%%ADD10C,0.1*%D10*".toList ++
    "X0Y0D02*D01*X20000*Y10000*%ADD11R,1X2*%X0*D11*Y0*D02*\n".toList ++
    "X20000Y10000*X30000D01*Y20000*X20000Y10000*M02*".toList

theorem plate_of_rounds_touching :
    let rectangle : Contour Float := [⟨0, 0⟩, ⟨2, 0⟩, ⟨2, 1⟩, ⟨0, 1⟩]
    let triangle : Contour Float := [⟨2, 1⟩, ⟨3, 1⟩, ⟨3, 2⟩]
    rectangle.IsPolygon ∧ triangle.IsPolygon ∧
      Modes.start.IsPlainRun (commands (K := Float) touching).value ∧
      Rounds [rectangle, triangle] (Modes.start.course (commands touching).value) ∧
      (plate touching).value = .some (.outline [rectangle, triangle]) := by
  intro rectangle triangle
  have first : rectangle.IsPolygon :=
    ⟨by decide, by decide +kernel, by decide +kernel⟩
  have second : triangle.IsPolygon :=
    ⟨by decide, by decide +kernel, by decide +kernel⟩
  have plain : Modes.start.IsPlainRun (commands (K := Float) touching).value := by
    decide +kernel
  have course : Modes.start.course (commands (K := Float) touching).value =
      [(.move, ⟨0, 0⟩), (.draw, ⟨2, 0⟩), (.draw, ⟨2, 1⟩), (.draw, ⟨0, 1⟩),
        (.draw, ⟨0, 0⟩), (.move, ⟨0, 0⟩), (.move, ⟨2, 1⟩), (.draw, ⟨3, 1⟩),
        (.draw, ⟨3, 2⟩), (.draw, ⟨2, 1⟩)] := by
    decide +kernel
  have rounds : Rounds [rectangle, triangle]
      (Modes.start.course (commands (K := Float) touching).value) := by
    rw [course]
    exact .polygon (.move (by decide +kernel) (.polygon .nil))
  have polygonal : ∀ polygon ∈ [rectangle, triangle], polygon.IsPolygon := by
    simp [first, second]
  have ended : '*' ∈ touching := by
    decide +kernel
  have plate := plate_of_rounds ended (List.cons_ne_nil _ _) polygonal plain rounds
  exact ⟨first, second, plain, rounds, plate⟩

end Layer

end Photoplot
