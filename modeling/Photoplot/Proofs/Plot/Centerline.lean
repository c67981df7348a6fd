import Mathlib.Data.List.SplitBy
import Photoplot.Proofs.Plot.Chain

/-! # Centre lines of straight draws

The centre lines are the draws in groups. Two draws in a row belong to the same group if
the second starts where the first one ended and nothing in between lifted the tool; each
group leaves one line, from the start of its first draw through the ends of all of them.
Draws without length and draws that are clear leave nothing, and they do not cut a line
either. -/

namespace Photoplot

/-! ## Threads

What a canvas holds of the centre lines: those that are done, and the one under way. -/

structure Thread (K : Type) where
  finished : List (List (Point K))
  current : List (Point K)

inductive Mark (K : Type)
  | draw (start finish : Point K)
  | cut

namespace Thread

variable {K : Type}

def cut (thread : Thread K) : Thread K :=
  ⟨thread.finished ++ Canvas.counted thread.current, []⟩

variable [PlaneScalar K]

def draw (thread : Thread K) (start finish : Point K) : Thread K :=
  if ∃ last ∈ thread.current.getLast?, Canvas.Together last start then
    { thread with current := thread.current ++ [finish] }
  else { thread.cut with current := [start, finish] }

def follow (thread : Thread K) : Mark K → Thread K
  | .draw start finish => thread.draw start finish
  | .cut => thread.cut

end Thread

namespace Canvas

variable {K : Type}

def Operation.isArcStroke : Operation K → Bool
  | .strokeArc _ _ _ => true
  | _ => false

def thread (canvas : Canvas K) : Thread K := ⟨canvas.plot.centerlines, canvas.chain⟩

theorem thread_breakChain (canvas : Canvas K) :
    canvas.breakChain.thread = canvas.thread.cut := by
  rw [thread, centerlines_breakChain, chain_breakChain]
  rfl

variable [PlaneScalar K]

theorem thread_extendChain (canvas : Canvas K) (start finish : Point K) :
    (canvas.extendChain start [finish]).thread = canvas.thread.draw start finish := by
  cases isLast : canvas.chain.getLast? with
  | none =>
      have nothing : canvas.chain = [] := List.getLast?_eq_none_iff.mp isLast
      rw [extendChain_of_nil nothing]
      simp [thread, Thread.draw, Thread.cut, counted, nothing]
  | some last =>
      by_cases together : Together last start
      · rw [extendChain_of_together isLast together]
        simp [thread, Thread.draw, isLast, together]
      · rw [extendChain_of_not_together isLast together]
        simp [thread, Thread.draw, Thread.cut, isLast, together, centerlines_breakChain]

theorem thread_stampOne (canvas : Canvas K) (primitive : Path.Primitive K) :
    (canvas.stampOne primitive).thread = canvas.thread := by
  unfold stampOne
  split
  · split <;> rfl
  · split <;> rfl
  · rfl

/-- A flash cuts the line, whatever it leaves. -/
theorem thread_stamp (canvas : Canvas K) (primitives : List (Path.Primitive K)) :
    (canvas.stamp primitives).thread = canvas.thread.cut := by
  rw [stamp, ← thread_breakChain]
  generalize canvas.breakChain = broken
  induction primitives generalizing broken with
  | nil => rfl
  | cons first rest induction => exact (induction _).trans (broken.thread_stampOne first)

theorem thread_closeContour (canvas : Canvas K) :
    canvas.closeContour.thread = canvas.thread := by
  simp only [closeContour]
  split <;> rfl

theorem thread_endRegion (canvas : Canvas K) :
    canvas.endRegion.thread = canvas.thread := by
  have closed := canvas.thread_closeContour
  simp only [endRegion]
  split <;> exact closed

/-- A draw without length leaves the line as it is. -/
theorem thread_strokeLine (canvas : Canvas K) (start finish : Point K) (width : K) :
    (canvas.strokeLine start finish width).thread =
      if finish.distance start < degenerateLength then canvas.thread
      else canvas.thread.draw start finish := by
  unfold strokeLine
  split
  · rename_i without
    rw [if_pos (Contour.stroke?_eq_none_iff.mp without)]
  · rename_i contour drawn
    have long : ¬finish.distance start < degenerateLength := by
      intro short
      rw [Contour.stroke?_eq_none_iff.mpr short] at drawn
      cases drawn
    rw [if_neg long, ← thread_extendChain]
    rfl

end Canvas

/-! ## What commands do to the centre lines -/

namespace Machine

variable {K : Type} [PlaneScalar K]

/-- Outside of regions, a move cuts the line, and so does a dark flash; a dark draw with a
length is a part of it. A region that begins cuts it too. -/
def mark? (machine : Machine K) (command : Command K) : Option (Mark K) :=
  let modes := machine.modes
  if modes.ended then none
  else
    match command with
    | .operation fields action =>
        let finish := (machine.moved fields action).modes.position
        if modes.regionOpen then none
        else
          match action.getD modes.action with
          | .move => some .cut
          | .draw =>
              if modes.polarity = .clear ∨
                  finish.distance modes.position < degenerateLength then none
              else some (.draw modes.position finish)
          | .flash => if modes.polarity = .clear then none else some .cut
    | .beginRegion => some .cut
    | _ => none

def marks (machine : Machine K) : List (Command K) → List (Mark K)
  | [] => []
  | command :: rest =>
      (machine.mark? command).toList ++ (machine.step command).value.marks rest

def IsStraight (operations : List (Canvas.Operation K)) : Prop :=
  ∀ operation ∈ operations, operation.isArcStroke = false

instance (operations : List (Canvas.Operation K)) : Decidable (IsStraight operations) :=
  inferInstanceAs (Decidable (∀ operation ∈ operations, _))

/-- An operation on a running machine does to the centre lines what its mark does. -/
theorem thread_step_operation {machine : Machine K} {fields : CoordinateFields K}
    {action : Option Action} (running : machine.modes.ended = false)
    (straight : IsStraight (machine.operations (.operation fields action))) :
    (machine.step (.operation fields action)).value.canvas.thread =
      (machine.mark? (.operation fields action)).toList.foldl Thread.follow
        machine.canvas.thread := by
  have opened : (machine.moved fields action).modes.regionOpen =
      machine.modes.regionOpen := rfl
  have polarity : (machine.moved fields action).modes.polarity =
      machine.modes.polarity := rfl
  rw [canvas_step]
  cases taken : action.getD machine.modes.action with
  | move =>
      cases isOpen : machine.modes.regionOpen with
      | true =>
          simpa [operations, mark?, running, taken, isOpen, Canvas.carryOut]
            using machine.canvas.thread_closeContour
      | false =>
          simpa [operations, mark?, running, taken, isOpen, Canvas.carryOut,
            Thread.follow]
            using machine.canvas.thread_breakChain
  | flash =>
      by_cases clear : machine.modes.polarity = .clear <;>
        cases isOpen : machine.modes.regionOpen <;>
        simp [operations, mark?, running, taken, flashOperations, opened, polarity, clear,
          isOpen, Canvas.carryOut, Canvas.thread_stamp, Thread.follow]
  | draw =>
      have issued : machine.operations (.operation fields action) =
          (machine.moved fields action).drawOperations machine.modes.position fields := by
        simp [operations, running, taken]
      rw [issued] at straight ⊢
      cases isOpen : machine.modes.regionOpen with
      | true =>
          cases arc :
              arc? (machine.moved fields action).modes machine.modes.position fields <;>
            simp [drawOperations, opened, isOpen, arc, mark?, running, Canvas.carryOut,
              Canvas.drawEdge, Canvas.regionEdge, Canvas.thread]
      | false =>
          by_cases clear : machine.modes.polarity = .clear
          · simp [drawOperations, opened, isOpen, polarity, clear, mark?, running, taken]
          cases resolved : arc? (machine.moved fields action).modes machine.modes.position
              fields with
          | some arc =>
              simp [IsStraight, drawOperations, opened, isOpen, polarity, clear, resolved,
                Canvas.Operation.isArcStroke] at straight
          | none =>
              by_cases short : (machine.moved fields action).modes.position.distance
                  machine.modes.position < degenerateLength <;>
                simp [drawOperations, opened, isOpen, polarity, clear, resolved, mark?,
                  running, taken, Canvas.carryOut, Canvas.thread_strokeLine, short,
                  Thread.follow]

/-- What a command does to the centre lines is what its mark does. -/
theorem thread_step {machine : Machine K} {command : Command K}
    (straight : IsStraight (machine.operations command)) :
    (machine.step command).value.canvas.thread =
      (machine.mark? command).toList.foldl Thread.follow machine.canvas.thread := by
  cases running : machine.modes.ended with
  | true => simp [canvas_step, operations, mark?, running]
  | false =>
      cases command with
      | operation fields action => exact thread_step_operation running straight
      | beginRegion =>
          have broken : machine.canvas.beginRegion.thread = machine.canvas.thread.cut :=
            machine.canvas.thread_breakChain
          simpa [canvas_step, operations, mark?, running, Canvas.carryOut, Thread.follow]
            using broken
      | endRegion =>
          have ended := machine.canvas.thread_endRegion
          have discarded : machine.canvas.discardRegion.thread =
              machine.canvas.thread := rfl
          rw [canvas_step]
          cases isOpen : machine.modes.regionOpen with
          | false => simp [operations, mark?, running, isOpen]
          | true =>
              by_cases clear : machine.modes.polarity = .clear <;>
                simp [operations, mark?, running, isOpen, clear, Canvas.carryOut, ended,
                  discarded]
      | _ => simp [canvas_step, operations, mark?, running]

omit [PlaneScalar K] in
theorem isStraight_append {first second : List (Canvas.Operation K)} :
    IsStraight (first ++ second) ↔ IsStraight first ∧ IsStraight second :=
  List.forall_mem_append

/-- The centre lines of a run are those that its marks leave. -/
theorem thread_run {machine : Machine K} {commands : List (Command K)}
    (straight : IsStraight (machine.trace commands)) :
    (machine.run commands).value.canvas.thread =
      (machine.marks commands).foldl Thread.follow machine.canvas.thread := by
  induction commands generalizing machine with
  | nil => rfl
  | cons command rest induction =>
      obtain ⟨first, later⟩ := isStraight_append.mp straight
      rw [run_cons, induction later, thread_step first, marks, List.foldl_append]

end Machine

/-! ## Draws in groups -/

structure Draw (K : Type) where
  start : Point K
  finish : Point K
  apart : Bool
  deriving DecidableEq, Repr

namespace Draw

variable {K : Type}

/-- The line along draws that go on from each other, from the start of the first one
through the ends of all of them. -/
def trail : List (Draw K) → List (Point K)
  | [] => []
  | first :: rest => first.start :: (first :: rest).map finish

theorem length_trail {group : List (Draw K)} (some : group ≠ []) :
    (trail group).length = group.length + 1 := by
  cases group with
  | nil => exact absurd rfl some
  | cons first rest => simp [trail]

theorem trail_concat {group : List (Draw K)} (some : group ≠ []) (draw : Draw K) :
    trail (group ++ [draw]) = trail group ++ [draw.finish] := by
  cases group with
  | nil => exact absurd rfl some
  | cons first rest => simp [trail]

theorem getLast?_trail (group : List (Draw K)) (last : Draw K) :
    (trail (group ++ [last])).getLast? = some last.finish := by
  cases group with
  | nil => rfl
  | cons first rest => rw [trail_concat (List.cons_ne_nil first rest),
      List.getLast?_concat]

theorem counted_trail {group : List (Draw K)} (some : group ≠ []) :
    Canvas.counted (trail group) = [trail group] := by
  have long : 0 < group.length := List.length_pos_iff.mpr some
  rw [Canvas.counted, if_pos (by rw [length_trail some]; omega)]

variable [PlaneScalar K]

def goesOn (first second : Draw K) : Bool :=
  !second.apart && decide (Canvas.Together first.finish second.start)

end Draw

namespace Mark

variable {K : Type}

def draws (lifted : Bool) : List (Mark K) → List (Draw K)
  | [] => []
  | .draw start finish :: rest => ⟨start, finish, lifted⟩ :: draws false rest
  | .cut :: rest => draws true rest

theorem apart_of_head?_draws {marks : List (Mark K)} {first : Draw K}
    (head : first ∈ (draws true marks).head?) : first.apart = true := by
  induction marks with
  | nil => cases head
  | cons mark rest induction =>
      cases mark with
      | draw start finish =>
          rcases Option.some.inj head with rfl
          rfl
      | cut => exact induction head

end Mark

namespace Thread

open Draw (goesOn trail)

variable {K : Type}

theorem cut_empty (finished : List (List (Point K))) :
    cut ⟨finished, []⟩ = ⟨finished, []⟩ := by
  simp [cut, Canvas.counted]

theorem cut_trail (finished : List (List (Point K))) {group : List (Draw K)}
    (some : group ≠ []) :
    cut ⟨finished, trail group⟩ = ⟨finished ++ [trail group], []⟩ := by
  rw [cut, Draw.counted_trail some]

variable [PlaneScalar K]

theorem draw_empty (finished : List (List (Point K))) (next : Draw K) :
    draw ⟨finished, []⟩ next.start next.finish = ⟨finished, trail [next]⟩ := by
  simp [draw, cut_empty, trail]

theorem draw_of_goesOn (finished : List (List (Point K))) {group : List (Draw K)}
    {last next : Draw K} (goes : goesOn last next) :
    draw ⟨finished, trail (group ++ [last])⟩ next.start next.finish =
      ⟨finished, trail (group ++ [last] ++ [next])⟩ := by
  have together : Canvas.Together last.finish next.start := by
    simp only [goesOn, Bool.and_eq_true, decide_eq_true_eq] at goes
    exact goes.2
  rw [draw, if_pos ⟨last.finish, Draw.getLast?_trail group last, together⟩,
    Draw.trail_concat
      (List.append_ne_nil_of_right_ne_nil group (List.cons_ne_nil last []))]

theorem draw_of_not_goesOn (finished : List (List (Point K))) {group : List (Draw K)}
    {last next : Draw K} (down : next.apart = false) (stops : goesOn last next = false) :
    draw ⟨finished, trail (group ++ [last])⟩ next.start next.finish =
      ⟨finished ++ [trail (group ++ [last])], trail [next]⟩ := by
  have away : ¬Canvas.Together last.finish next.start := by
    simpa [goesOn, down] using stops
  have other : ¬∃ point ∈ (trail (group ++ [last])).getLast?,
      Canvas.Together point next.start := by
    rw [Draw.getLast?_trail]
    rintro ⟨point, ⟨⟩, together⟩
    exact away together
  rw [draw, if_neg other, cut_trail finished (by simp)]
  rfl

/-- With a group of draws under way, or none, the lines that marks leave are those of all
groups. The two parts need each other: a group under way comes to its end, and behind the
end the next draw begins one. -/
theorem finished_follow (marks : List (Mark K)) :
    (∀ (finished : List (List (Point K))) (group : List (Draw K)), group ≠ [] →
      group.IsChain (fun first second => goesOn first second) →
      (marks.foldl follow ⟨finished, trail group⟩).cut.finished =
        finished ++ ((group ++ Mark.draws false marks).splitBy goesOn).map trail) ∧
    ∀ (finished : List (List (Point K))) (lifted : Bool),
      (marks.foldl follow ⟨finished, []⟩).cut.finished =
        finished ++ ((Mark.draws lifted marks).splitBy goesOn).map trail := by
  induction marks with
  | nil =>
      refine ⟨fun finished group some chained => ?_, fun finished lifted => ?_⟩
      · simp [Mark.draws, cut_trail finished some, List.splitBy_of_isChain some chained]
      · simp [Mark.draws, cut_empty]
  | cons mark rest induction =>
      obtain ⟨opened, closed⟩ := induction
      cases mark with
      | cut =>
          refine ⟨fun finished group some chained => ?_, fun finished lifted => ?_⟩
          · have parted : ∀ last ∈ group.getLast?, ∀ next ∈ (Mark.draws true rest).head?,
                goesOn last next = false := by
              intro last _ next head
              simp [goesOn, Mark.apart_of_head?_draws head]
            rw [List.foldl_cons, follow, cut_trail finished some, closed _ true,
              Mark.draws, List.splitBy_append parted,
              List.splitBy_of_isChain some chained]
            simp
          · rw [List.foldl_cons, follow, cut_empty, closed finished true, Mark.draws]
      | draw start finish =>
          refine ⟨fun finished group some chained => ?_, fun finished lifted => ?_⟩
          · obtain ⟨before, last, rfl⟩ : ∃ before last, group = before ++ [last] :=
              ⟨group.dropLast, group.getLast some,
                (List.dropLast_append_getLast some).symm⟩
            rw [List.foldl_cons, follow, Mark.draws]
            let next : Draw K := ⟨start, finish, false⟩
            by_cases goes : goesOn last next
            · have joined : (before ++ [last] ++ [next]).IsChain
                  (fun first second => goesOn first second) := by
                rw [List.isChain_append]
                exact ⟨chained, List.isChain_singleton _, by simpa using goes⟩
              rw [draw_of_goesOn finished goes, opened finished _ (by simp) joined]
              simp [next]
            · have stops : goesOn last next = false := eq_false_of_ne_true goes
              rw [draw_of_not_goesOn finished rfl stops,
                opened _ [next] (by simp) (List.isChain_singleton _),
                List.splitBy_append_cons _ (by simpa using stops),
                List.splitBy_of_isChain some chained]
              simp [next]
          · let next : Draw K := ⟨start, finish, lifted⟩
            rw [List.foldl_cons, follow, draw_empty finished next,
              opened finished [next] (by simp) (List.isChain_singleton _), Mark.draws]
            rfl

end Thread

/-! ## Segments -/

namespace Draw

variable {K : Type} [PlaneScalar K]

def segments (line : List (Point K)) : List (Point K × Point K) := line.zip line.tail

structure Along (segment : Point K × Point K) (draw : Draw K) : Prop where
  finish : segment.2 = draw.finish
  start : segment.1 = draw.start ∨ Canvas.Together segment.1 draw.start

/-- Behind its first draw a group leaves one segment for each draw, from the end of the
draw before. -/
theorem along_zip {last : Draw K} {group : List (Draw K)}
    (chained : (last :: group).IsChain fun first second => goesOn first second) :
    List.Forall₂ Along
      ((last.finish :: group.map finish).zip (group.map finish)) group := by
  induction group generalizing last with
  | nil => exact .nil
  | cons next rest induction =>
      obtain ⟨goes, later⟩ := List.isChain_cons_cons.mp chained
      have together : Canvas.Together last.finish next.start := by
        simp only [goesOn, Bool.and_eq_true, decide_eq_true_eq] at goes
        exact goes.2
      exact .cons ⟨rfl, .inr together⟩ (induction later)

theorem along_trail {group : List (Draw K)} (some : group ≠ [])
    (chained : group.IsChain fun first second => goesOn first second) :
    List.Forall₂ Along (segments (trail group)) group := by
  cases group with
  | nil => exact absurd rfl some
  | cons first rest => exact .cons ⟨rfl, .inl rfl⟩ (along_zip chained)

theorem along_flatMap_segments {groups : List (List (Draw K))}
    (each : ∀ group ∈ groups,
      group ≠ [] ∧ group.IsChain fun first second => goesOn first second) :
    List.Forall₂ Along ((groups.map trail).flatMap segments) groups.flatten := by
  induction groups with
  | nil => exact .nil
  | cons first rest induction =>
      obtain ⟨some, chained⟩ := each first List.mem_cons_self
      exact List.rel_append (along_trail some chained)
        (induction fun group member => each group (List.mem_cons_of_mem _ member))

end Draw

namespace Machine

variable {K : Type} [PlaneScalar K]

omit [PlaneScalar K] in
theorem centerlines_finish (machine : Machine K) :
    machine.finish.value.centerlines = machine.canvas.thread.cut.finished := by
  rw [value_finish]
  split
  · exact Canvas.centerlines_breakChain machine.canvas.discardRegion
  · exact Canvas.centerlines_breakChain machine.canvas

def strokes (commands : List (Command K)) : List (Draw K) :=
  Mark.draws true ((start (K := K)).marks commands)

theorem centerlines_plot_eq {commands : List (Command K)}
    (straight : IsStraight (start.trace commands)) :
    (plot commands).value.centerlines =
      ((strokes commands).splitBy Draw.goesOn).map Draw.trail := by
  calc (plot commands).value.centerlines
      = (start.run commands).value.canvas.thread.cut.finished :=
        centerlines_finish (start.run commands).value
    _ = (((start (K := K)).marks commands).foldl Thread.follow
        ⟨[], []⟩).cut.finished := by
        rw [thread_run straight]
        rfl
    _ = _ := by
        rw [(Thread.finished_follow _).2 [] true]
        rfl

/-- The centre lines of straight draws hold each draw once and in order: a group of draws
that go on from each other is one line, and its segments are the draws. -/
theorem centerlines_plot (commands : List (Command K))
    (straight : IsStraight (start.trace commands)) :
    let draws := strokes commands
    let lines := (plot commands).value.centerlines
    lines = (draws.splitBy Draw.goesOn).map Draw.trail ∧
      List.Forall₂ Draw.Along (lines.flatMap Draw.segments) draws ∧
      ∀ line ∈ lines, 2 ≤ line.length := by
  intro draws lines
  have grouped : lines = (draws.splitBy Draw.goesOn).map Draw.trail :=
    centerlines_plot_eq straight
  refine ⟨grouped, ?_, ?_⟩
  · have each : ∀ group ∈ draws.splitBy Draw.goesOn,
        group ≠ [] ∧ group.IsChain fun first second => Draw.goesOn first second :=
      fun group member =>
        ⟨List.ne_nil_of_mem_splitBy member, List.isChain_of_mem_splitBy member⟩
    have along := Draw.along_flatMap_segments each
    rwa [← grouped, List.flatten_splitBy] at along
  · intro line member
    rw [grouped] at member
    obtain ⟨group, inside, rfl⟩ := List.mem_map.mp member
    have some : group ≠ [] := List.ne_nil_of_mem_splitBy inside
    have long : 0 < group.length := List.length_pos_iff.mpr some
    rw [Draw.length_trail some]
    omega

/-- An angle, with a draw without length at its corner. Behind a flash, the way back. -/
def angleAndBack : List (Command Float) :=
  let toward (x y : Float) (action : Action) : Command Float :=
    .operation ⟨some (.decimal x), some (.decimal y), none, none⟩ (some action)
  [toward 3 0 .draw, toward 3 0 .draw, toward 3 4 .draw, toward 3 4 .flash,
    toward 3 0 .draw]

theorem centerlines_plot_angleAndBack :
    IsStraight (start.trace angleAndBack) ∧
      (plot angleAndBack).value.centerlines =
        [[⟨0, 0⟩, ⟨3, 0⟩, ⟨3, 4⟩], [⟨3, 4⟩, ⟨3, 0⟩]] ∧
      List.Forall₂ Draw.Along
        [(⟨0, 0⟩, ⟨3, 0⟩), (⟨3, 0⟩, ⟨3, 4⟩),
          (⟨3, 4⟩, ⟨3, 0⟩)] (strokes angleAndBack) := by
  have straight : IsStraight (start.trace angleAndBack) := by decide +kernel
  obtain ⟨grouped, along, -⟩ := centerlines_plot angleAndBack straight
  have lines : (plot angleAndBack).value.centerlines =
      [[⟨0, 0⟩, ⟨3, 0⟩, ⟨3, 4⟩], [⟨3, 4⟩, ⟨3, 0⟩]] := by
    rw [grouped]
    decide +kernel
  rw [lines] at along
  exact ⟨straight, lines, along⟩

end Machine

end Photoplot
