import Photoplot.Proofs.Plot.Bounds

/-! # Displaced edges

An edge of a region is displaced when the current point has been moved since the
edge before it. Only a flash does that: it leaves nothing inside of a region, but
the current point goes along. -/

namespace Photoplot

/-! ## Bounds from above -/

namespace Span

def Below (bound : ℝ) : Span ℝ → Prop
  | .none => True
  | .between _ high => high ≤ bound

variable {bound value : ℝ} {span other : Span ℝ}

theorem Below.holds_le (below : span.Below bound) (holds : span.Holds value) :
    value ≤ bound := by
  cases span with
  | none => exact holds.elim
  | between low high => exact holds.2.trans below

theorem Below.cover (below : span.Below bound) (least : value ≤ bound) :
    (span.cover value).Below bound := by
  cases span with
  | none => simpa [Span.cover, Below] using least
  | between low high =>
      change Scalar.greater high value ≤ bound
      rw [Scalar.greater_eq_max]
      exact max_le below least

end Span

namespace Box

variable {bound : ℝ} {box other : Box ℝ}

theorem below_coverAll {points : List (Point ℝ)} (below : box.x.Below bound)
    (all : ∀ point ∈ points, point.x ≤ bound) : (box.coverAll points).x.Below bound := by
  induction points generalizing box with
  | nil => exact below
  | cons first rest induction =>
      exact induction (below.cover (all first (by simp))) fun point member =>
        all point (List.mem_cons_of_mem _ member)

theorem below_join (below : box.x.Below bound) (also : other.x.Below bound) :
    (box.join other).x.Below bound := by
  unfold join
  split
  · exact below
  · rename_i nonempty
    cases span : other.x with
    | none => simp [isEmpty, span, Span.isEmpty] at nonempty
    | between low high =>
        rw [span] at also
        have ordered : low ≤ high := by
          by_contra disordered
          simp [isEmpty, span, Span.isEmpty, disordered] at nonempty
        exact (below.cover (ordered.trans also)).cover also

end Box

namespace Machine

open Canvas (Operation Sketch Edge Outline)

/-! ## Draws that stay connected -/

def FlashesInRegion (machine : Machine ℝ) (command : Command ℝ) : Prop :=
  machine.modes.ended = false ∧ machine.modes.regionOpen = true ∧
    ∃ fields action, command = .operation fields action ∧
      action.getD machine.modes.action = .flash

def NeverFlashesInRegion (machine : Machine ℝ) : List (Command ℝ) → Prop
  | [] => True
  | command :: rest =>
      ¬machine.FlashesInRegion command ∧
        (machine.step command).value.NeverFlashesInRegion rest

structure Connected (machine : Machine ℝ) (sketch : Sketch ℝ) : Prop where
  outlines : ∀ outline ∈ sketch.closed ++ [sketch.current], outline.displaced = []
  position : machine.modes.regionOpen = true →
    ∀ edge ∈ sketch.current.getLast?, edge.finish = machine.modes.position

theorem displacedFrom_append (last : Point ℝ) (outline : Outline ℝ) (edge : Edge ℝ) :
    Outline.displacedFrom last (outline ++ [edge]) =
      Outline.displacedFrom last outline ++
        Outline.displacedFrom ((outline.getLast?.map Edge.finish).getD last) [edge] := by
  induction outline generalizing last with
  | nil => rfl
  | cons first rest induction =>
      rw [List.cons_append, Outline.displacedFrom, Outline.displacedFrom, induction,
        List.append_assoc]
      cases rest with
      | nil => rfl
      | cons second others =>
          cases final : (second :: others).getLast? with
          | none => simp at final
          | some _ => simp [List.getLast?_cons_cons, final]

/-- An edge that begins where the outline ends does not add a displaced one. -/
theorem displaced_append {outline : Outline ℝ} {edge : Edge ℝ}
    (connected : outline.displaced = [])
    (continues : ∀ last ∈ outline.getLast?, last.finish = edge.start) :
    Outline.displaced (outline ++ [edge]) = [] := by
  cases outline with
  | nil => simp [Outline.displaced, Outline.displacedFrom]
  | cons first rest =>
      have earlier : Outline.displacedFrom first.start (first :: rest) = [] := connected
      rw [List.cons_append, Outline.displaced, ← List.cons_append, displacedFrom_append,
        earlier]
      cases last : (first :: rest).getLast? with
      | none => simp at last
      | some final => simp [Outline.displacedFrom, continues final last]

theorem Connected.displaced_eq_nil {machine : Machine ℝ} {sketch : Sketch ℝ}
    (connected : machine.Connected sketch) : sketch.displaced = [] := by
  apply List.flatMap_eq_nil_iff.mpr
  intro outline member
  exact connected.outlines outline (List.mem_filter.mp member).1

theorem connected_empty (machine : Machine ℝ) : machine.Connected .empty := by
  constructor
  · intro outline member
    rcases List.mem_singleton.mp member with rfl
    rfl
  · intro _ edge isEdge
    cases isEdge

/-- Outside of regions, and where nothing moves, the sketch stays connected. -/
theorem Connected.keep {machine other : Machine ℝ} {sketch : Sketch ℝ}
    (connected : machine.Connected sketch)
    (same : other.modes.regionOpen = true →
      machine.modes.regionOpen = true ∧ other.modes.position = machine.modes.position) :
    other.Connected sketch := by
  refine ⟨connected.outlines, fun opened edge isEdge => ?_⟩
  rcases same opened with ⟨wasOpen, position⟩
  rw [position]
  exact connected.position wasOpen edge isEdge

theorem Connected.drawEdge {machine other : Machine ℝ} {sketch : Sketch ℝ} {edge : Edge ℝ}
    (connected : machine.Connected sketch) (opened : machine.modes.regionOpen = true)
    (begins : edge.start = machine.modes.position)
    (ends : edge.finish = other.modes.position) :
    other.Connected (sketch.draw (.drawEdge edge)) := by
  constructor
  · intro outline member
    rcases List.mem_append.mp member with closed | current
    · exact connected.outlines outline (List.mem_append_left _ closed)
    · rcases List.mem_singleton.mp current with rfl
      apply displaced_append (connected.outlines _ (by simp))
      intro last isLast
      rw [begins]
      exact connected.position opened last isLast
  · intro _ final isFinal
    have isEdge : edge = final := by
      simpa [Sketch.draw] using isFinal
    rw [← isEdge, ends]

theorem connected_closeContour {machine other : Machine ℝ} {sketch : Sketch ℝ}
    (connected : machine.Connected sketch) :
    other.Connected (sketch.draw .closeContour) := by
  constructor
  · intro outline member
    rcases List.mem_append.mp member with closed | current
    · exact connected.outlines outline closed
    · rcases List.mem_singleton.mp current with rfl
      rfl
  · intro _ edge isEdge
    cases isEdge

/-- A command that comes to nothing neither opens a region nor, unless it is a flash,
moves the current point inside of one. -/
theorem stays_of_operations_eq_nil {machine : Machine ℝ} {command : Command ℝ}
    (nothing : machine.operations command = [])
    (smooth : ¬machine.FlashesInRegion command)
    (isOpen : (machine.step command).value.modes.regionOpen = true) :
    machine.modes.regionOpen = true ∧
      (machine.step command).value.modes.position = machine.modes.position := by
  rw [regionOpen_step] at isOpen
  rw [position_step]
  cases ended : machine.modes.ended with
  | true =>
      rw [ended] at isOpen
      exact ⟨isOpen, rfl⟩
  | false =>
      simp only [ended, Bool.false_eq_true, if_false] at isOpen ⊢
      cases command with
      | operation fields action =>
          have opened : machine.modes.regionOpen = true := isOpen
          have movedOpen : (machine.moved fields action).modes.regionOpen = true := opened
          simp only [operations, ended, Bool.false_eq_true, if_false] at nothing
          cases taken : action.getD machine.modes.action with
          | move => simp [taken, opened] at nothing
          | draw =>
              simp only [taken, drawOperations, movedOpen, if_true] at nothing
              split at nothing <;> cases nothing
          | flash => exact absurd ⟨ended, opened, fields, action, rfl, taken⟩ smooth
      | beginRegion => simp [operations, ended] at nothing
      | endRegion => cases isOpen
      | _ => exact ⟨isOpen, rfl⟩

theorem Connected.issue {machine : Machine ℝ} {sketch : Sketch ℝ} {command : Command ℝ}
    {operation : Operation ℝ} (connected : machine.Connected sketch)
    (running : machine.modes.ended = false) (issues : machine.Issues command operation) :
    (machine.step command).value.Connected (sketch.draw operation) := by
  have regionOpen := machine.regionOpen_step command
  have position := machine.position_step command
  simp only [running, Bool.false_eq_true, if_false] at regionOpen position
  cases issues with
  | closeContour opened taken => exact connected_closeContour connected
  | line opened taken straight => exact connected.drawEdge opened rfl position.symm
  | arc opened taken resolved => exact connected.drawEdge opened rfl position.symm
  | beginRegion => exact connected_empty _
  | discardRegion opened clear => exact connected_empty _
  | endRegion opened dark => exact connected_empty _
  | breakChain closed taken =>
      exact connected.keep fun isOpen => by simp [regionOpen, closed] at isOpen
  | strokeLine closed dark taken straight =>
      exact connected.keep fun isOpen => by simp [regionOpen, closed] at isOpen
  | strokeArc closed dark taken resolved =>
      exact connected.keep fun isOpen => by simp [regionOpen, closed] at isOpen
  | stamp closed dark taken =>
      exact connected.keep fun isOpen => by simp [regionOpen, closed] at isOpen

/-- A command that is no flash inside of a region keeps the sketch connected. -/
theorem Connected.step {machine : Machine ℝ} {sketch : Sketch ℝ} {command : Command ℝ}
    (connected : machine.Connected sketch) (smooth : ¬machine.FlashesInRegion command) :
    (machine.step command).value.Connected
      ((machine.operations command).foldl Sketch.draw sketch) := by
  rcases machine.operations_eq command with none | ⟨operation, single⟩
  · rw [none]
    exact connected.keep fun isOpen => stays_of_operations_eq_nil none smooth isOpen
  · have member : operation ∈ machine.operations command := by simp [single]
    rcases issues_of_mem_operations member with ⟨running, issues⟩
    rw [single]
    exact connected.issue running issues

theorem displaced_eq_nil {commands : List (Command ℝ)}
    (smooth : start.NeverFlashesInRegion commands) : displaced commands = [] := by
  have all : ∀ (machine : Machine ℝ) (sketch : Sketch ℝ), machine.Connected sketch →
      machine.NeverFlashesInRegion commands →
        sketch.displacedByAll (machine.trace commands) = [] := by
    clear smooth
    induction commands with
    | nil => exact fun _ _ _ _ => rfl
    | cons command rest induction =>
        intro machine sketch connected smooth
        have later := induction _ _ (connected.step smooth.1) smooth.2
        rw [trace]
        rcases machine.operations_eq command with none | ⟨operation, single⟩
        · rw [none] at later ⊢
          exact later
        · rw [single] at later ⊢
          have quiet : sketch.displacedBy operation = [] := by
            cases operation with
            | endRegion => exact connected.displaced_eq_nil
            | _ => rfl
          rw [List.singleton_append, Sketch.displacedByAll, quiet, List.nil_append]
          exact later
  exact all start .empty (connected_empty start) smooth

/-! ## A flash inside of a region -/

/-- A region with a flash in it, which moves the start of the arc that follows. -/
noncomputable def flashedRegion : List (Command ℝ) :=
  [.beginRegion,
    .operation ⟨some (.decimal (-1)), none, none, none⟩ (some .draw),
    .operation ⟨some (.decimal 1), some (.decimal 1), none, none⟩ (some .flash),
    .counterclockwise,
    .operation ⟨some (.decimal (-1)), none, some (.decimal (-1)), some (.decimal (-1))⟩
      (some .draw),
    .endRegion]

noncomputable def quarter : Arc ℝ :=
    ⟨⟨0, 0⟩, √(2 : ℕ), Real.pi / (4 : ℕ), Real.pi / (2 : ℕ)⟩

theorem quarter_eq : quarter = ⟨⟨0, 0⟩, √2, Real.pi / 4, Real.pi / 2⟩ := rfl

theorem quarter_ends :
    (⟨0, 0⟩ : Point ℝ).polar √2 (Real.pi / 4) = ⟨1, 1⟩ ∧
      (⟨0, 0⟩ : Point ℝ).polar √2 (Real.pi / 4 + Real.pi / 2) = ⟨-1, 1⟩ := by
  have root : √2 * (√2 / 2) = 1 := by
    rw [← mul_div_assoc, Real.mul_self_sqrt (by norm_num), div_self (by norm_num)]
  have last : Real.pi / 4 + Real.pi / 2 = Real.pi - Real.pi / 4 := by ring
  constructor
  · change
      (⟨0 + √2 * Real.cos (Real.pi / 4), 0 + √2 * Real.sin (Real.pi / 4)⟩ : Point ℝ) = _
    rw [Real.sin_pi_div_four, Real.cos_pi_div_four, root, zero_add]
  · change (⟨0 + √2 * Real.cos (Real.pi / 4 + Real.pi / 2),
      0 + √2 * Real.sin (Real.pi / 4 + Real.pi / 2)⟩ : Point ℝ) = _
    rw [last, Real.sin_pi_sub, Real.cos_pi_sub, Real.sin_pi_div_four,
      Real.cos_pi_div_four, mul_neg, root, zero_add, zero_add]

theorem resolve_quarter :
    Arc.resolve? .multi false (⟨1, 1⟩ : Point ℝ) ⟨-1, 1⟩ ⟨-1, -1⟩ = some quarter := by
  have pi := Real.pi_pos
  have positive : (0 : ℝ) < √2 := by positivity
  have first : Arc.angleFrom ⟨0, 0⟩ (⟨1, 1⟩ : Point ℝ) = Real.pi / 4 := by
    rw [← quarter_ends.1]
    exact Arc.angleFrom_polar ⟨0, 0⟩ positive (by linarith) (by linarith)
  have last : Arc.angleFrom ⟨0, 0⟩ (⟨-1, 1⟩ : Point ℝ) = Real.pi / 4 + Real.pi / 2 := by
    rw [← quarter_ends.2]
    exact Arc.angleFrom_polar ⟨0, 0⟩ positive (by linarith) (by linarith)
  have apart : ¬ PlaneScalar.hypot (-1 - 1 : ℝ) 0 < 1e-9 := by
    change ¬ √((-1 - 1) ^ 2 + 0 ^ 2) < _
    rw [not_lt]
    apply Real.le_sqrt_of_sq_le
    norm_num
  have radius : (⟨1, 1⟩ : Point ℝ).distance ⟨0, 0⟩ = √2 := by
    change √((1 - 0) ^ 2 + (1 - 0) ^ 2) = _
    norm_num
  have extent : ¬ √2 < (1e-9 : ℝ) := by
    rw [not_lt]
    apply Real.le_sqrt_of_sq_le
    norm_num
  have sweep : Arc.directedSweep
      (PlaneScalar.turn : ℝ) (Real.pi / 2) false = Real.pi / 2 := by
    have once : Real.pi / 2 ≤ (PlaneScalar.turn : ℝ) := by
      rw [Arc.turn_eq]
      linarith
    exact Arc.directedSweep_eq Arc.turn_pos ⟨by linarith, once⟩
  simp [Arc.resolve?, first, last, apart, radius, extent, sweep, quarter_eq]

theorem trace_flashedRegion :
    start.trace flashedRegion =
      [.beginRegion, .drawEdge (.line .origin ⟨-1, 0⟩),
        .drawEdge (.arc ⟨1, 1⟩ ⟨-1, 1⟩ quarter), .endRegion] := by
  simp [trace, flashedRegion, operations, start, Modes.start, step, execute, beginRegion,
    operate, moved, drawOperations, flashOperations, arc?, Modes.advance, Modes.target,
    Point.origin, Exact.zero_eq, draw, Modes.offsets,
    resolve_quarter]

theorem fair_flashedRegion : ∀ operation ∈ start.trace flashedRegion,
    operation.IsFair := by
  have radius : (⟨-1, 1⟩ : Point ℝ).distance ⟨0, 0⟩ = √2 := by
    change √((-1 - 0) ^ 2 + (1 - 0) ^ 2) = _
    norm_num
  rw [trace_flashedRegion]
  intro operation member
  simp only [List.mem_cons, List.not_mem_nil, or_false] at member
  rcases member with rfl | rfl | rfl | rfl
  · trivial
  · trivial
  · exact radius
  · trivial

theorem not_fullCircle_quarter : quarter.isFullCircle = false := by
  have pi := Real.pi_gt_three
  have magnitude : Scalar.abs (Real.pi / 2) = Real.pi / 2 := abs_of_pos (by linarith)
  simp only [Arc.isFullCircle, quarter_eq, magnitude, Arc.turn_eq,
    decide_eq_false_iff_not, not_le]
  norm_num
  linarith

theorem not_containsAngle_quarter : quarter.containsAngle 0 = false := by
  have pi := Real.pi_pos
  have nonneg : 0 ≤ Real.pi / 2 := by linarith
  have floor : ⌊(0 - Real.pi / 4) / (2 * Real.pi)⌋ = -1 := by
    rw [Int.floor_eq_iff, le_div_iff₀ (by positivity), div_lt_iff₀ (by positivity)]
    push_cast
    constructor
    · linarith
    · linarith
  have modulo : PlaneScalar.modulo (0 - Real.pi / 4) (2 * Real.pi) =
      7 * (Real.pi / 4) := by
    change 0 - Real.pi / 4 - 2 * Real.pi * ⌊(0 - Real.pi / 4) / (2 * Real.pi)⌋ = _
    rw [floor]
    push_cast
    ring
  simp only [Arc.containsAngle, quarter_eq, Exact.zero_eq, nonneg, if_true, Arc.turn_eq,
    modulo, decide_eq_false_iff_not, not_le]
  linarith

theorem extremes_quarter_le : ∀ point ∈ quarter.extremes, point.x ≤ 0 := by
  have pi := Real.pi_pos
  intro point member
  rcases List.mem_map.mp member with ⟨angle, met, rfl⟩
  rcases List.mem_filter.mp met with ⟨axis, reached⟩
  have negative : Real.cos angle ≤ 0 := by
    rw [Arc.axisAngles_eq] at axis
    simp only [List.mem_cons, List.not_mem_nil, or_false] at axis
    rcases axis with rfl | rfl | rfl | rfl
    · rw [not_fullCircle_quarter, not_containsAngle_quarter] at reached
      cases reached
    · rw [Real.cos_pi_div_two]
    · rw [Real.cos_pi]
      norm_num
    · have threeQuarters : 3 * Real.pi / 2 = Real.pi / 2 + Real.pi := by ring
      rw [threeQuarters, Real.cos_add_pi, Real.cos_pi_div_two, neg_zero]
  change 0 + √2 * Real.cos angle ≤ 0
  rw [zero_add]
  exact mul_nonpos_of_nonneg_of_nonpos (by positivity) negative

theorem chordCount_quarter : Arc.chordCount quarter.sweep = 45 := by
  have pi := Real.pi_pos
  have ratio : Scalar.abs quarter.sweep / Arc.chordAngle = ((45 : ℕ) : ℝ) := by
    have ninety : (90.0 : ℝ) = 90 := by norm_num
    change |Real.pi / 2| / (Real.pi / 90.0) = _
    rw [abs_of_pos (by linarith), ninety]
    field_simp
    norm_num
  have ceil : Scalar.ceilNat (((45 : ℕ) : ℝ)) = 45 := Nat.ceil_natCast 45
  rw [Arc.chordCount, ratio, ceil]
  rfl

/-- The vertex behind the start is to the right of all points that are covered. -/
theorem exists_point_quarter : ∃ point ∈ quarter.points.tail, 0 < point.x := by
  have pi := Real.pi_pos
  refine ⟨quarter.pointAt (Real.pi / 4 + Real.pi / 2 * 1 / 45) √2, ?_, ?_⟩
  · rw [Arc.points, chordCount_quarter, List.range_succ_eq_map, List.map_cons,
      List.tail_cons, List.map_map, List.mem_map]
    refine ⟨0, by simp, ?_⟩
    simp [Arc.ofNat_eq_cast, quarter_eq, Arc.pointAt]
  · change 0 < 0 + √2 * Real.cos _
    rw [zero_add]
    have cosine := Real.cos_pos_of_mem_Ioo
      (⟨by linarith, by linarith⟩ : Real.pi / 4 + Real.pi / 2 * 1 / 45 ∈
        Set.Ioo (-(Real.pi / 2)) (Real.pi / 2))
    positivity

noncomputable def flashedSketch : Sketch ℝ :=
  ⟨[], [.line .origin ⟨-1, 0⟩, .arc ⟨1, 1⟩ ⟨-1, 1⟩ quarter]⟩

theorem kept_flashedSketch : flashedSketch.kept = [flashedSketch.current] := by
  have length : 3 ≤ flashedSketch.current.vertices.length := by
    have points : flashedSketch.current.opened.points.length = 47 := by
      simp [flashedSketch, Outline.opened, Edge.points, Edge.start, Arc.points,
        chordCount_quarter]
    rcases Outline.openEnded_eq flashedSketch.current.opened.points with same | shorter
    · rw [Outline.vertices, same, points]
      norm_num
    · rw [Outline.vertices, shorter, List.length_dropLast, points]
      norm_num
  have kept : flashedSketch.current.IsKept = true := decide_eq_true length
  rw [Sketch.kept]
  exact List.filter_cons_of_pos kept

theorem exists_displaced : ∃ point ∈ displaced flashedRegion, 0 < point.x := by
  rcases exists_point_quarter with ⟨point, member, positive⟩
  refine ⟨point, ?_, positive⟩
  have apart : (⟨1, 1⟩ : Point ℝ) ≠ ⟨-1, 0⟩ := by simp
  have own : displaced flashedRegion = flashedSketch.displaced := by
    rw [displaced, trace_flashedRegion]
    simp [Sketch.displacedByAll, Sketch.displacedBy, Sketch.draw, Sketch.empty,
      flashedSketch]
  rw [own, Sketch.displaced, kept_flashedSketch]
  simpa [flashedSketch, Outline.displaced, Outline.displacedFrom, Edge.start, Edge.finish,
    apart, Edge.points] using member

theorem below_flashedRegion : (plot flashedRegion).value.box.x.Below 0 := by
  let before := [Operation.beginRegion, .drawEdge (.line .origin ⟨-1, 0⟩),
    .drawEdge (.arc ⟨1, 1⟩ ⟨-1, 1⟩ quarter)].foldl Canvas.carryOut
    (start : Machine ℝ).canvas
  have collected : before.collected = flashedSketch.collected :=
    @Canvas.collected_foldl _ _ _ .empty rfl _
  have ended := (Canvas.objects_endRegion collected).2
  have some : flashedSketch.shape.isEmpty = false := by
    simp [Sketch.shape, kept_flashedSketch]
  rw [some] at ended
  have box : (plot flashedRegion).value.box =
      (Box.empty : Box ℝ).join flashedSketch.box := by
    have same := ((start : Machine ℝ).run flashedRegion).value.sameObjects_finish.2.2
    rw [canvas_run, trace_flashedRegion] at same
    exact same.trans ended.2.2
  rw [box, Sketch.box, kept_flashedSketch]
  have covered : flashedSketch.current.opened.box.x.Below 0 := by
    have origin : ((Box.empty : Box ℝ).cover .origin).x.Below 0 :=
      @Span.Below.cover _ _ .none trivial (by norm_num [Point.origin])
    apply Box.below_coverAll origin
    intro point member
    simp only [List.flatMap_cons, List.flatMap_nil, Edge.extent, List.append_nil,
      List.cons_append, List.nil_append, List.mem_cons] at member
    rcases member with rfl | rfl | isExtreme
    · norm_num
    · norm_num
    · exact extremes_quarter_le point isExtreme
  exact Box.below_join trivial (Box.below_join trivial covered)

theorem not_forall_holdsShape :
    ¬∀ commands : List (Command ℝ),
    (∀ operation ∈ start.trace commands, operation.IsFair) →
      ∀ shape ∈ (plot commands).value.shapes,
      (plot commands).value.box.HoldsShape shape := by
  intro all
  have held :=
      (bounded_plot fair_flashedRegion).holdsShape_iff.mp (all _ fair_flashedRegion)
  rcases exists_displaced with ⟨point, member, positive⟩
  exact absurd positive (not_lt.mpr (below_flashedRegion.holds_le (held point member).1))

end Machine

end Photoplot
