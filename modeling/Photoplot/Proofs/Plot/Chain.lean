import Photoplot.Proofs.Plot.Round

/-! # Chains of draws

Draws outside of regions are joined to chains: a draw continues the chain if it starts
where the chain ends. A straight draw leaves the end of the chain at the current point.
A circular draw leaves it on its own circle, and the current point need not be there;
then the next draw begins another chain. -/

namespace Photoplot

/-! ## The chain of a canvas -/

namespace Canvas

variable {K : Type} [PlaneScalar K]

def counted {α : Type} (chain : List α) : List (List α) :=
    if 2 ≤ chain.length then [chain] else []

omit [PlaneScalar K] in
theorem centerlines_breakChain (canvas : Canvas K) :
    canvas.breakChain.plot.centerlines =
      canvas.plot.centerlines ++ counted canvas.chain := by
  unfold breakChain counted
  split
  · rfl
  · simp

omit [PlaneScalar K] in
theorem chain_breakChain (canvas : Canvas K) : canvas.breakChain.chain = [] := by
  unfold breakChain
  split <;> rfl

theorem extendChain_of_nil {canvas : Canvas K} (none : canvas.chain = [])
    (start : Point K) (points : List (Point K)) :
    canvas.extendChain start points = { canvas with chain := start :: points } := by
  simp [extendChain, breakChain, none]

theorem extendChain_of_together {canvas : Canvas K} {last start : Point K}
    (isLast : canvas.chain.getLast? = some last) (together : Together last start)
    (points : List (Point K)) :
    canvas.extendChain start points =
      { canvas with chain := canvas.chain ++ points } := by
  simp [extendChain, isLast, together]

theorem extendChain_of_not_together {canvas : Canvas K} {last start : Point K}
    (isLast : canvas.chain.getLast? = some last) (apart : ¬Together last start)
    (points : List (Point K)) :
    canvas.extendChain start points =
      { canvas.breakChain with chain := start :: points } := by
  simp [extendChain, isLast, apart]

/-- The points of a draw come behind others: those of the chain, or its own start. -/
theorem exists_chain_extendChain (canvas : Canvas K) (start : Point K)
    (points : List (Point K)) :
    ∃ front ≠ [], (canvas.extendChain start points).chain = front ++ points := by
  cases isLast : canvas.chain.getLast? with
  | none =>
      rw [extendChain_of_nil (List.getLast?_eq_none_iff.mp isLast)]
      exact ⟨[start], List.cons_ne_nil _ _, rfl⟩
  | some last =>
      by_cases together : Together last start
      · rw [extendChain_of_together isLast together]
        refine ⟨canvas.chain, ?_, rfl⟩
        rintro empty
        rw [empty] at isLast
        cases isLast
      · rw [extendChain_of_not_together isLast together]
        exact ⟨[start], List.cons_ne_nil _ _, rfl⟩

/-! ## Centre lines are only added -/

omit [PlaneScalar K] in
theorem centerlines_breakChain_prefix (canvas : Canvas K) :
    canvas.plot.centerlines <+: canvas.breakChain.plot.centerlines := by
  rw [centerlines_breakChain]
  exact List.prefix_append _ _

theorem centerlines_extendChain_prefix (canvas : Canvas K) (start : Point K)
    (points : List (Point K)) :
    canvas.plot.centerlines <+: (canvas.extendChain start points).plot.centerlines := by
  rcases canvas.extendChain_eq start points with ⟨chain, continued | begun⟩
  · rw [continued]
  · rw [begun]
    exact canvas.centerlines_breakChain_prefix

theorem centerlines_stamp_prefix (canvas : Canvas K)
    (primitives : List (Path.Primitive K)) :
    canvas.plot.centerlines <+: (canvas.stamp primitives).plot.centerlines := by
  have one : ∀ (canvas : Canvas K) (primitive : Path.Primitive K),
      (canvas.stampOne primitive).plot.centerlines = canvas.plot.centerlines := by
    intro canvas primitive
    unfold stampOne
    split
    · split <;> rfl
    · split <;> rfl
    · rfl
  have all : ∀ canvas : Canvas K,
      (primitives.foldl stampOne canvas).plot.centerlines = canvas.plot.centerlines := by
    induction primitives with
    | nil => exact fun _ => rfl
    | cons first rest induction =>
        exact fun canvas => (induction _).trans (one canvas first)
  rw [stamp, all]
  exact canvas.centerlines_breakChain_prefix

theorem centerlines_carryOut_prefix (canvas : Canvas K) (operation : Operation K) :
    canvas.plot.centerlines <+: (canvas.carryOut operation).plot.centerlines := by
  have closed : canvas.closeContour.plot = canvas.plot := by
    unfold closeContour
    simp only
    split <;> rfl
  cases operation with
  | breakChain => exact canvas.centerlines_breakChain_prefix
  | strokeLine start finish width =>
      simp only [carryOut, strokeLine]
      split
      · exact List.prefix_rfl
      · exact canvas.centerlines_extendChain_prefix start [finish]
  | strokeArc start arc width => exact canvas.centerlines_extendChain_prefix start _
  | stamp primitives => exact canvas.centerlines_stamp_prefix primitives
  | beginRegion => exact canvas.centerlines_breakChain_prefix
  | drawEdge => exact List.prefix_rfl
  | closeContour => rw [carryOut, closed]
  | endRegion =>
      simp only [carryOut, endRegion]
      split
      · rw [closed]
      · simp only [closed]
        exact List.prefix_rfl
  | discardRegion => exact List.prefix_rfl

end Canvas

namespace Machine

variable {K : Type} [PlaneScalar K]

theorem centerlines_run_prefix (machine : Machine K) (commands : List (Command K)) :
    machine.canvas.plot.centerlines <+:
    (machine.run commands).value.canvas.plot.centerlines := by
  rw [canvas_run]
  generalize machine.canvas = canvas
  induction machine.trace commands generalizing canvas with
  | nil => exact List.prefix_rfl
  | cons operation rest induction =>
      exact (canvas.centerlines_carryOut_prefix operation).trans (induction _)

/-! ## Draws that leave something -/

structure Strokes (machine : Machine K) (fields : CoordinateFields K)
    (action : Option Action) :
    Prop where
  running : machine.modes.ended = false
  closed : machine.modes.regionOpen = false
  dark : machine.modes.polarity = .dark
  taken : action.getD machine.modes.action = .draw
  emits : (machine.step (.operation fields action)).value.canvas.plot.shapes ≠
    machine.canvas.plot.shapes

def strokePoints (machine : Machine K) (fields : CoordinateFields K)
    (action : Option Action) :
    List (Point K) :=
  match arc? (machine.moved fields action).modes machine.modes.position fields with
  | some arc => arc.points.tail
  | none => [(machine.moved fields action).modes.position]

theorem shapes_extendChain (canvas : Canvas K) (start : Point K)
    (points : List (Point K)) :
    (canvas.extendChain start points).plot.shapes = canvas.plot.shapes :=
  (canvas.sameObjects_extendChain start points).2.1

theorem position_operation {machine : Machine K} (running : machine.modes.ended = false)
    (fields : CoordinateFields K) (action : Option Action) :
    (machine.step (.operation fields action)).value.modes.position =
      (machine.moved fields action).modes.position := by
  rw [position_step, if_neg (by simp [running])]

/-- A dark draw outside of regions extends the chain, unless it is a line without
length. -/
theorem canvas_step_draw {machine : Machine K} {fields : CoordinateFields K}
    {action : Option Action} (running : machine.modes.ended = false)
    (closed : machine.modes.regionOpen = false) (dark : machine.modes.polarity = .dark)
    (taken : action.getD machine.modes.action = .draw) :
    (arc? (machine.moved fields action).modes machine.modes.position fields = none ∧
        (machine.moved fields action).modes.position.distance machine.modes.position <
          degenerateLength ∧
        (machine.step (.operation fields action)).value.canvas = machine.canvas) ∨
      (arc? (machine.moved fields action).modes machine.modes.position fields ≠ none ∨
          ¬(machine.moved fields action).modes.position.distance machine.modes.position <
            degenerateLength) ∧
        ∃ primitives shape extent,
          (machine.step (.operation fields action)).value.canvas =
            (machine.canvas.extendChain machine.modes.position
              (machine.strokePoints fields action)).addObject
                primitives shape extent := by
  have regionClosed : (machine.moved fields action).modes.regionOpen = false := closed
  have notClear : ¬(machine.moved fields action).modes.polarity = .clear := by
    change ¬machine.modes.polarity = .clear
    rw [dark]
    exact Polarity.noConfusion
  rw [canvas_step, operations, running]
  simp only [Bool.false_eq_true, if_false, taken, drawOperations, regionClosed, notClear,
    strokePoints]
  cases arc? (machine.moved fields action).modes machine.modes.position fields with
  | some arc => exact .inr ⟨.inl (Option.some_ne_none arc), _, _, _, rfl⟩
  | none =>
      simp only [List.foldl_cons, List.foldl_nil, Canvas.carryOut, Canvas.strokeLine]
      split
      · rename_i without
        exact .inl ⟨trivial, Contour.stroke?_eq_none_iff.mp without, rfl⟩
      · rename_i contour drawn
        refine .inr ⟨.inr fun short => ?_, _, _, _, rfl⟩
        rw [Contour.stroke?_eq_none_iff.mpr short] at drawn
        cases drawn

theorem Strokes.canvas_step {machine : Machine K} {fields : CoordinateFields K}
    {action : Option Action} (strokes : machine.Strokes fields action) :
    ∃ primitives shape extent,
      (machine.step (.operation fields action)).value.canvas =
        (machine.canvas.extendChain machine.modes.position
          (machine.strokePoints fields action)).addObject primitives shape extent := by
  rcases canvas_step_draw strokes.running strokes.closed strokes.dark strokes.taken with
    ⟨-, -, same⟩ | ⟨-, drawn⟩
  · exact absurd
      (congrArg (fun canvas : Canvas K => canvas.plot.shapes) same) strokes.emits
  · exact drawn

/-- A draw leaves something if it follows an arc or has a length. -/
theorem strokes_of_drawn {machine : Machine K} {fields : CoordinateFields K}
    {action : Option Action} (running : machine.modes.ended = false)
    (closed : machine.modes.regionOpen = false) (dark : machine.modes.polarity = .dark)
    (taken : action.getD machine.modes.action = .draw)
    (drawn :
      arc? (machine.moved fields action).modes machine.modes.position fields ≠ none ∨
      ¬(machine.moved fields action).modes.position.distance machine.modes.position <
        degenerateLength) :
    machine.Strokes fields action := by
  refine ⟨running, closed, dark, taken, ?_⟩
  rcases canvas_step_draw running closed dark taken with
    ⟨straight, short, -⟩ | ⟨-, _, _, _, drawn⟩
  · rcases drawn with curved | long
    · exact absurd straight curved
    · exact absurd short long
  · rw [drawn]
    simp [Canvas.addObject, shapes_extendChain]

theorem strokePoints_ne_nil (machine : Machine K) (fields : CoordinateFields K)
    (action : Option Action) : machine.strokePoints fields action ≠ [] := by
  unfold strokePoints
  split
  · rename_i arc _
    exact List.ne_nil_of_length_pos (zero_lt_two.trans_le arc.two_le_length_tail_points)
  · exact List.cons_ne_nil _ _

/-! ## Where a draw ends -/

def Meets (machine : Machine ℝ) (fields : CoordinateFields ℝ)
    (action : Option Action) : Prop :=
  ∀ arc, arc? (machine.moved fields action).modes machine.modes.position
    fields = some arc →
    arc.Meets (machine.moved fields action).modes.position

theorem exists_last_strokePoints (machine : Machine ℝ) (fields : CoordinateFields ℝ)
    (action : Option Action) :
    ∃ last, (machine.strokePoints fields action).getLast? = some last ∧
      (Canvas.Together last (machine.moved fields action).modes.position ↔
        machine.Meets fields action) := by
  unfold strokePoints Meets
  cases curved :
      arc? (machine.moved fields action).modes machine.modes.position fields with
  | none =>
      refine ⟨(machine.moved fields action).modes.position, rfl, iff_of_true ?_ (by simp)⟩
      rw [Canvas.Together, Point.distance_self]
      exact Arc.degenerateLength_pos
  | some arc =>
      rcases Arc.resolved_of_arc curved with ⟨clockwise, resolved⟩
      exact ⟨_, arc.getLast_tail_points,
        (Arc.together_finish_iff resolved).trans (by simp)⟩

/-- The chain ends at the current point, unless the draw misses it. -/
theorem Strokes.exists_last {machine : Machine ℝ} {fields : CoordinateFields ℝ}
    {action : Option Action} (strokes : machine.Strokes fields action) :
    ∃ last,
    (machine.step (.operation fields action)).value.canvas.chain.getLast? = some last ∧
      (Canvas.Together last
        (machine.step (.operation fields action)).value.modes.position ↔
        machine.Meets fields action) := by
  rcases machine.exists_last_strokePoints fields action with ⟨last, isLast, meets⟩
  rcases strokes.canvas_step with ⟨_, _, _, drawn⟩
  rcases machine.canvas.exists_chain_extendChain machine.modes.position
    (machine.strokePoints fields action) with ⟨front, -, chain⟩
  refine ⟨last, ?_, by rw [position_operation strokes.running, meets]⟩
  rw [drawn, ← isLast]
  change (machine.canvas.extendChain _ _).chain.getLast? = _
  rw [chain]
  exact List.getLast?_append_of_ne_nil front (machine.strokePoints_ne_nil fields action)

/-! ## Rows of draws -/

/-- Draws that leave something, and in between nothing that touches the canvas or moves
the current point. -/
inductive Row : Machine ℝ → List (Command ℝ) → Prop
  | nil (machine : Machine ℝ) : Row machine []
  | draw {machine : Machine ℝ} {fields : CoordinateFields ℝ} {action : Option Action}
      {rest : List (Command ℝ)} (strokes : machine.Strokes fields action)
      (row : Row (machine.step (.operation fields action)).value rest) :
      Row machine (.operation fields action :: rest)
  | pass {machine : Machine ℝ} {command : Command ℝ} {rest : List (Command ℝ)}
      (silent : machine.operations command = [])
      (stays : (machine.step command).value.modes.position = machine.modes.position)
      (row : Row (machine.step command).value rest) : Row machine (command :: rest)

def MeetsAll (machine : Machine ℝ) : List (Command ℝ) → Prop
  | [] => True
  | command :: rest =>
      (∀ fields action, command = .operation fields action →
        machine.Strokes fields action → machine.Meets fields action) ∧
      (machine.step command).value.MeetsAll rest

inductive Continues (machine : Machine ℝ) (first : Point ℝ) : Prop
  | fresh (none : machine.canvas.chain = []) (here : machine.modes.position = first)
  | along {last : Point ℝ} (long : 2 ≤ machine.canvas.chain.length)
      (isFirst : machine.canvas.chain.head? = some first)
      (isLast : machine.canvas.chain.getLast? = some last)
      (together : Canvas.Together last machine.modes.position)

theorem Strokes.two_le_length {machine : Machine ℝ} {fields : CoordinateFields ℝ}
    {action : Option Action} (strokes : machine.Strokes fields action) :
    2 ≤ (machine.step (.operation fields action)).value.canvas.chain.length := by
  rcases strokes.canvas_step with ⟨_, _, _, drawn⟩
  rcases machine.canvas.exists_chain_extendChain machine.modes.position
    (machine.strokePoints fields action) with ⟨front, nonempty, chain⟩
  have before := List.length_pos_of_ne_nil nonempty
  have behind := List.length_pos_of_ne_nil (machine.strokePoints_ne_nil fields action)
  rw [drawn]
  change 2 ≤ (machine.canvas.extendChain _ _).chain.length
  rw [chain, List.length_append]
  omega

/-- A draw that starts where the chain goes on adds to it. -/
theorem Continues.draw {machine : Machine ℝ} {first : Point ℝ}
    (continues : machine.Continues first)
    {fields : CoordinateFields ℝ} {action : Option Action}
    (strokes : machine.Strokes fields action) :
    (machine.step (.operation fields action)).value.canvas.plot.centerlines =
        machine.canvas.plot.centerlines ∧
      (machine.Meets fields action →
        (machine.step (.operation fields action)).value.Continues first) := by
  rcases strokes.canvas_step with ⟨_, _, _, drawn⟩
  rcases strokes.exists_last with ⟨last, isLast, meets⟩
  have begun : (machine.step (.operation fields action)).value.canvas.plot.centerlines =
        machine.canvas.plot.centerlines ∧
      (machine.step (.operation fields action)).value.canvas.chain.head? =
        some first := by
    rw [drawn]
    cases continues with
    | fresh none here =>
        rw [Canvas.extendChain_of_nil none, ← here]
        exact ⟨rfl, rfl⟩
    | along _ isFirst isEnd together =>
        rw [Canvas.extendChain_of_together isEnd together]
        refine ⟨rfl, ?_⟩
        change (machine.canvas.chain ++ _).head? = _
        rw [List.head?_append, isFirst]
        rfl
  exact ⟨begun.1, fun ends =>
    .along strokes.two_le_length begun.2 isLast (meets.mpr ends)⟩

theorem Continues.chain_draw {machine : Machine ℝ} {first : Point ℝ}
    (continues : machine.Continues first) (long : 2 ≤ machine.canvas.chain.length)
    {fields : CoordinateFields ℝ} {action : Option Action}
    (strokes : machine.Strokes fields action) :
    (machine.step (.operation fields action)).value.canvas.chain =
      machine.canvas.chain ++ machine.strokePoints fields action := by
  rcases strokes.canvas_step with ⟨_, _, _, drawn⟩
  rw [drawn]
  cases continues with
  | fresh none here =>
      rw [none] at long
      cases long
  | along _ _ isLast together =>
      rw [Canvas.extendChain_of_together isLast together]
      rfl

/-- A draw that starts elsewhere ends the chain. -/
theorem Strokes.centerlines_of_not_continues {machine : Machine ℝ}
    {fields : CoordinateFields ℝ}
    {action : Option Action} (strokes : machine.Strokes fields action)
    (long : 2 ≤ machine.canvas.chain.length)
    (misses : ¬∃ first, machine.Continues first) :
    (machine.step (.operation fields action)).value.canvas.plot.centerlines =
      machine.canvas.plot.centerlines ++ [machine.canvas.chain] := by
  rcases strokes.canvas_step with ⟨_, _, _, drawn⟩
  have nonempty : machine.canvas.chain ≠ [] := List.ne_nil_of_length_pos (by omega)
  have isFirst := List.head?_eq_some_head nonempty
  have isLast := List.getLast?_eq_some_getLast nonempty
  have apart : ¬Canvas.Together _ machine.modes.position :=
    fun together => misses ⟨_, .along long isFirst isLast together⟩
  rw [drawn, Canvas.extendChain_of_not_together isLast apart]
  change machine.canvas.breakChain.plot.centerlines = _
  rw [Canvas.centerlines_breakChain, Canvas.counted, if_pos long]

/-- What passes changes neither the chain nor the centre lines. -/
theorem canvas_step_of_silent {machine : Machine ℝ} {command : Command ℝ}
    (silent : machine.operations command = []) :
    (machine.step command).value.canvas = machine.canvas := by
  rw [canvas_step, silent]
  rfl

theorem not_strokes_of_silent {machine : Machine ℝ} {fields : CoordinateFields ℝ}
    {action : Option Action}
    (silent : machine.operations (.operation fields action) = []) :
    ¬machine.Strokes fields action := by
  intro strokes
  apply strokes.emits
  rw [canvas_step_of_silent silent]

theorem Continues.keep {machine other : Machine ℝ} {first : Point ℝ}
    (continues : machine.Continues first) (canvas : other.canvas = machine.canvas)
    (position : other.modes.position = machine.modes.position) :
    other.Continues first := by
  cases continues with
  | fresh none here => exact .fresh (canvas ▸ none) (position ▸ here)
  | along long isFirst isLast together =>
      exact .along (canvas ▸ long) (canvas ▸ isFirst)
        (canvas ▸ isLast) (position ▸ together)

theorem continues_iff_of_silent {machine : Machine ℝ} {command : Command ℝ}
    {first : Point ℝ} (silent : machine.operations command = [])
    (stays : (machine.step command).value.modes.position = machine.modes.position) :
    (machine.step command).value.Continues first ↔ machine.Continues first := by
  have same := canvas_step_of_silent silent
  exact ⟨fun continues => continues.keep same.symm stays.symm,
    fun continues => continues.keep same stays⟩

/-- A row that misses no end leaves one chain, from its first point to the current one. -/
theorem Row.continues {machine : Machine ℝ} {commands : List (Command ℝ)}
    (row : Row machine commands) {first : Point ℝ} (continues : machine.Continues first)
    (meets : machine.MeetsAll commands) :
    (machine.run commands).value.canvas.plot.centerlines =
      machine.canvas.plot.centerlines ∧
      (machine.run commands).value.Continues first := by
  induction row with
  | nil => exact ⟨rfl, continues⟩
  | draw strokes row induction =>
      rcases continues.draw strokes with ⟨same, next⟩
      rcases induction (next (meets.1 _ _ rfl strokes)) meets.2 with ⟨kept, after⟩
      exact ⟨kept.trans same, after⟩
  | pass silent stays row induction =>
      have next := (continues_iff_of_silent silent stays).mpr continues
      rcases induction next meets.2 with ⟨kept, after⟩
      rw [canvas_step_of_silent silent] at kept
      exact ⟨kept, after⟩

/-- The chain goes on with the draw behind a row exactly if it goes on at the row, and
no draw of the row misses its end. -/
theorem Row.centerlines_eq_iff {machine : Machine ℝ} {commands : List (Command ℝ)}
    (row : Row machine commands)
    (whole : machine.canvas.chain = [] ∨ 2 ≤ machine.canvas.chain.length)
    {fields : CoordinateFields ℝ} {action : Option Action}
    (next : (machine.run commands).value.Strokes fields action) :
    (machine.run (commands ++ [.operation fields action])).value.canvas.plot.centerlines =
        machine.canvas.plot.centerlines ↔
      (∃ first, machine.Continues first) ∧ machine.MeetsAll commands := by
  -- A machine without a chain goes on with any draw.
  have fresh : ∀ {machine : Machine ℝ},
      machine.canvas.chain = [] ∨ 2 ≤ machine.canvas.chain.length →
        (¬∃ first, machine.Continues first) → 2 ≤ machine.canvas.chain.length := by
    rintro machine (none | long) misses
    · exact absurd ⟨_, .fresh none rfl⟩ misses
    · exact long
  induction row with
  | nil machine =>
      have next : machine.Strokes fields action := next
      by_cases continues : ∃ first, machine.Continues first
      · rcases continues with ⟨first, continues⟩
        exact iff_of_true (continues.draw next).1 ⟨⟨first, continues⟩, trivial⟩
      · have grown := next.centerlines_of_not_continues (fresh whole continues) continues
        refine iff_of_false ?_ (fun both => continues both.1)
        change (machine.step _).value.canvas.plot.centerlines ≠ _
        simp [grown]
  | @draw machine fields' action' rest strokes row induction =>
      rw [List.cons_append, run_cons]
      by_cases continues : ∃ first, machine.Continues first
      · rcases continues with ⟨first, continues⟩
        rcases continues.draw strokes with ⟨same, ends⟩
        -- Behind the draw the question is whether it met its end; what comes before is
        -- settled.
        have goesOn :
            (∃ first, (machine.step (.operation fields' action')).value.Continues first) ↔
            machine.Meets fields' action' := by
          refine ⟨?_, fun meets => ⟨first, ends meets⟩⟩
          rintro ⟨other, onward⟩
          rcases strokes.exists_last with ⟨last, isLast, meets⟩
          cases onward with
          | fresh none => simp [none] at isLast
          | along _ _ isEnd together =>
              rcases Option.some.inj (isLast.symm.trans isEnd) with rfl
              exact meets.mp together
        rw [← same]
        refine (induction (.inr strokes.two_le_length) next).trans ?_
        rw [goesOn]
        refine ⟨fun both => ⟨⟨first, continues⟩, ?_, both.2⟩, fun both => ⟨?_, both.2.2⟩⟩
        · rintro _ _ ⟨⟩ _
          exact both.1
        · exact both.2.1 _ _ rfl strokes
      · have grown :=
            strokes.centerlines_of_not_continues (fresh whole continues) continues
        -- What the draw added to the centre lines stays, whatever the rest of the row
        -- does.
        refine iff_of_false ?_ (fun both => continues both.1)
        intro same
        have added :=
            centerlines_run_prefix (machine.step (.operation fields' action')).value
          (rest ++ [.operation fields action])
        rw [same, grown] at added
        have longer := added.length_le
        simp at longer
  | @pass machine command rest silent stays row induction =>
      have same := canvas_step_of_silent silent
      have alike := @continues_iff_of_silent machine command
      rw [List.cons_append, run_cons, ← same]
      refine (induction (same ▸ whole) next).trans ?_
      simp only [alike silent stays, MeetsAll]
      refine and_congr_right fun _ => ⟨fun meets => ⟨?_, meets⟩, And.right⟩
      rintro _ _ rfl strokes
      exact absurd strokes (not_strokes_of_silent silent)

/-- Behind a draw that leaves something, the chain ends at the current point exactly if
the draw led to its own circle. The draws of a row, and one behind them, are one chain
exactly if all of them did, up to the last; and a row of such draws that returns to where
it began is one closed chain. -/
theorem chain_draws (machine : Machine ℝ) :
    (∀ fields action, machine.Strokes fields action →
      ∃ last,
      (machine.step (.operation fields action)).value.canvas.chain.getLast? = some last ∧
        (Canvas.Together last
          (machine.step (.operation fields action)).value.modes.position ↔
          machine.Meets fields action)) ∧
    ∀ commands, machine.canvas.chain = [] → machine.Row commands →
      (∀ fields action, (machine.run commands).value.Strokes fields action →
        ((machine.run
          (commands ++ [.operation fields action])).value.canvas.plot.centerlines =
          machine.canvas.plot.centerlines ↔ machine.MeetsAll commands)) ∧
      (machine.MeetsAll commands →
        (machine.run commands).value.modes.position = machine.modes.position →
        4 ≤ (machine.run commands).value.canvas.chain.length →
        ∀ tolerance, degenerateLength ≤ tolerance →
          (machine.run commands).value.canvas.finish.closedCenterlines tolerance =
            machine.canvas.plot.closedCenterlines tolerance ++
              [(machine.run commands).value.canvas.chain.dropLast]) := by
  refine ⟨fun fields action strokes => strokes.exists_last, fun commands none row => ?_⟩
  have fresh : machine.Continues machine.modes.position := .fresh none rfl
  refine ⟨fun fields action next => ?_, fun meets returns long tolerance coarse => ?_⟩
  · rw [row.centerlines_eq_iff (.inl none) next]
    exact and_iff_right ⟨_, fresh⟩
  · rcases row.continues fresh meets with ⟨same, continues⟩
    cases continues with
    | fresh empty =>
        rw [empty] at long
        cases long
    | @along last _ isFirst isLast together =>
        have back : machine.modes.position.distance last ≤ tolerance := by
          rw [Point.distance_comm, ← returns]
          exact together.le.trans coarse
        have closed :
            Plot.closedChain? tolerance (machine.run commands).value.canvas.chain =
            some (machine.run commands).value.canvas.chain.dropLast := by
          simp [Plot.closedChain?, isFirst, isLast, long, back]
        have counts : Canvas.counted (machine.run commands).value.canvas.chain =
            [(machine.run commands).value.canvas.chain] := if_pos (by omega)
        rw [Canvas.finish, Plot.closedCenterlines, Canvas.centerlines_breakChain, counts,
          same, List.filterMap_append]
        simp [closed, Plot.closedCenterlines]

noncomputable def turning (place : ℝ) (action : Action) (xSeen : Bool) : Modes ℝ :=
  { (Modes.start : Modes ℝ) with
    position := ⟨place, 0⟩
    action
    xSeen
    interpolation := .counterclockwise }

/-- From there an arc leads along the axis to a point that is as far from its centre as
the current point, or misses it. -/
theorem strokes_turning {machine : Machine ℝ} {place finish offset : ℝ} {last : Action}
    {xSeen : Bool} {action : Option Action}
    (turned : machine.modes = turning place last xSeen)
    (taken : action.getD last = .draw) (extent : degenerateLength ≤ |offset|) :
    let fields : CoordinateFields ℝ :=
        ⟨some (.decimal finish), none, some (.decimal offset), none⟩
    machine.Strokes fields action ∧
      (machine.moved fields action).modes.position = ⟨finish, 0⟩ ∧
      2 ≤ (machine.strokePoints fields action).length ∧
      (machine.Meets fields action ↔
        |(|finish - (place + offset)| - |offset|)| < degenerateLength) := by
  intro fields
  have here : machine.modes.position = ⟨place, 0⟩ := by rw [turned, turning]
  have leads : (machine.moved fields action).modes.position = ⟨finish, 0⟩ := by
    simp [moved, turned, turning, fields, Modes.advance, Modes.target, Modes.start]
  have offsets : (machine.moved fields action).modes.offsets fields = ⟨offset, 0⟩ := by
    simp [moved, turned, turning, fields, Modes.advance, Modes.offsets, Modes.start,
      Exact.zero_eq]
  have centered : (⟨place + offset, 0 + 0⟩ : Point ℝ) = ⟨place + offset, 0⟩ := by
    rw [add_zero]
  have radius : (⟨place, 0⟩ : Point ℝ).distance ⟨place + offset, 0⟩ = |offset| := by
    rw [Point.distance_along, sub_add_cancel_left, abs_neg]
  rcases @Arc.exists_resolve false ⟨place, 0⟩ ⟨finish, 0⟩ ⟨offset, 0⟩ _ centered
    (by rwa [radius]) with ⟨arc, resolved, center, circle⟩
  have isArc : arc? (machine.moved fields action).modes machine.modes.position fields =
      some arc := by
    have circular : (machine.moved fields action).modes.interpolation =
        .counterclockwise := by
      simp [moved, turned, turning, Modes.advance]
    have multi : (machine.moved fields action).modes.quadrants = .multi := by
      simp [moved, turned, turning, Modes.advance, Modes.start]
    simp only [arc?, circular, multi, leads, offsets, here]
    exact resolved
  refine ⟨?_, leads, ?_, ?_⟩
  · refine strokes_of_drawn (by rw [turned]; rfl) (by rw [turned]; rfl)
      (by rw [turned]; rfl) ?_
      (.inl (by simp [isArc]))
    rw [turned]
    exact taken
  · rw [strokePoints, isArc]
    exact arc.two_le_length_tail_points
  · simp [Meets, isArc, Arc.Meets, leads, center, circle, radius, Point.distance_along]

noncomputable def halfDisc : List (Command ℝ) :=
  [.operation ⟨some (.decimal 1), none, none, none⟩ (some .draw),
    .counterclockwise,
    .operation ⟨some (.decimal 0), none, some (.decimal (-0.5)), none⟩ none]

theorem chain_draws_halfDisc :
    (start (K := ℝ)).canvas.chain = [] ∧ start.Row halfDisc ∧ start.MeetsAll halfDisc ∧
      (start.run halfDisc).value.modes.position = start.modes.position ∧
      (start.run halfDisc).value.canvas.finish.closedCenterlines degenerateLength =
        [(start.run halfDisc).value.canvas.chain.dropLast] := by
  have zero : (0.0 : ℝ) = 0 := by norm_num
  let diameter : CoordinateFields ℝ := ⟨some (.decimal 1), none, none, none⟩
  let back : CoordinateFields ℝ := ⟨some (.decimal 0), none, some (.decimal (-0.5)), none⟩
  let right := (start.step (.operation diameter (some .draw))).value
  let turned := (right.step .counterclockwise).value
  have first : start.Strokes diameter (some .draw) := by
    refine strokes_of_drawn rfl rfl rfl rfl (.inr ?_)
    have leads : (start.moved diameter (some .draw)).modes.position = ⟨1, 0⟩ := by
      simp [diameter, moved, start, Modes.start, Modes.advance, Modes.target,
        Point.origin, zero]
    have begins : (start (K := ℝ)).modes.position = ⟨0, 0⟩ := by
      simp [start, Modes.start, Point.origin, zero]
    rw [leads, begins, Point.distance_along]
    norm_num [degenerateLength]
  have straight : start.Meets diameter (some .draw) := by
    rintro arc ⟨⟩
  have silent : right.operations .counterclockwise = [] := by
    unfold operations
    split <;> rfl
  have stays : turned.modes.position = right.modes.position := by
    rw [position_step]
    split <;> rfl
  have modes : turned.modes = turning 1 .draw true := by
    rw [modes_step, modes_step]
    simp [turning, Modes.step, Modes.after, diameter, start, Modes.start, Modes.advance,
      Modes.target, Point.origin, zero]
  have half : |(-0.5 : ℝ)| = 0.5 := by norm_num [abs_of_pos]
  rcases @strokes_turning turned 1 0 (-0.5) _ _ none modes rfl
    (by norm_num [half, degenerateLength]) with ⟨second, home, points, meets⟩
  have returns : turned.Meets back none := by
    rw [meets]
    norm_num [degenerateLength]
  have row : start.Row halfDisc :=
      .draw first (.pass silent stays (.draw second (.nil _)))
  have meets : start.MeetsAll halfDisc := by
    refine ⟨?_, ?_, ?_, trivial⟩
    · rintro _ _ ⟨⟩ _
      exact straight
    · rintro _ _ ⟨⟩
    · rintro _ _ ⟨⟩ _
      exact returns
  have home : (start.run halfDisc).value.modes.position =
      (start (K := ℝ)).modes.position := by
    change (turned.step (.operation back none)).value.modes.position = _
    rw [position_operation second.running, home]
    simp [start, Modes.start, Point.origin, zero]
  have long : 4 ≤ (start.run halfDisc).value.canvas.chain.length := by
    have begun : 2 ≤ turned.canvas.chain.length := by
      rw [canvas_step_of_silent silent]
      exact first.two_le_length
    have along : turned.Continues (start (K := ℝ)).modes.position :=
      ((continues_iff_of_silent silent stays).mpr
        ((Continues.draw (.fresh rfl rfl) first).2 straight))
    change 4 ≤ (turned.step (.operation back none)).value.canvas.chain.length
    rw [along.chain_draw begun second, List.length_append]
    exact Nat.add_le_add begun points
  exact ⟨rfl, row, meets, home,
    ((chain_draws start).2 halfDisc rfl row).2 meets home long degenerateLength le_rfl⟩

/-- A draw to a point off its circle leaves the chain behind. -/
theorem not_forall_together :
    ¬∀ (commands : List (Command ℝ)) (fields : CoordinateFields ℝ)
    (action : Option Action),
      (start.run commands).value.Strokes fields action →
        ∃ last,
          ((start.run commands).value.step
            (.operation fields action)).value.canvas.chain.getLast? =
              some last ∧
            Canvas.Together last
              ((start.run commands).value.step
                (.operation fields action)).value.modes.position := by
  intro always
  have zero : (0.0 : ℝ) = 0 := by norm_num
  let fields : CoordinateFields ℝ := ⟨some (.decimal 3), none, some (.decimal 1), none⟩
  let turned : Machine ℝ := (start.run [.counterclockwise]).value
  have modes : turned.modes = turning 0 .move false := by
    refine (modes_step start .counterclockwise).trans ?_
    simp [turning, Modes.step, Modes.after, start, Modes.start, Point.origin, zero]
  rcases @strokes_turning turned 0 3 1 _ _ (some .draw) modes rfl
      (by norm_num [degenerateLength])
    with ⟨strokes, -, -, meets⟩
  rcases strokes.exists_last with ⟨last, isLast, ends⟩
  rcases always [.counterclockwise] fields (some .draw) strokes with
      ⟨same, isSame, together⟩
  rcases Option.some.inj (isLast.symm.trans isSame) with rfl
  have onCircle := meets.mp (ends.mp together)
  norm_num [degenerateLength] at onCircle

end Machine

end Photoplot
