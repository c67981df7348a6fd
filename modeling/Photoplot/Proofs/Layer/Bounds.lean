import Photoplot.Proofs.Layer.Grammar
import Photoplot.Proofs.Path.Steps
import Photoplot.Proofs.Plot.Displaced
import Photoplot.Proofs.Scalar.Rounding

/-! # The bounds of a layer

The box of a layer holds the end points of its path, up to the rounding of the
text: whether the path is that of the plot or of a clearance, and whether it is
mirrored or not. -/

namespace Photoplot

namespace Path

def Command.finish? {K : Type} [Scalar K] (command : Command) : Option (Point K) :=
  match command.operands.reverse with
  | y :: x :: _ => do return ⟨← Scalar.read? x, ← Scalar.read? y⟩
  | _ => none

inductive EndsAt (Good : Point ℝ → Prop) : Command → Prop
  | move {point : Point ℝ} (good : Good point) : EndsAt Good ⟨'M', pair point⟩
  | line {point : Point ℝ} (good : Good point) : EndsAt Good ⟨'L', pair point⟩
  | arc {radius : ℝ} {large sweep : Bool} {finish : Point ℝ} (good : Good finish) :
      EndsAt Good (arcCommand radius large sweep finish)
  | close : EndsAt Good ⟨'Z', []⟩

variable {Good Other : Point ℝ → Prop} {command : Command}

/-! ## Reading end points -/

theorem read_coordinate (x : ℝ) :
    Scalar.read? (Scalar.coordinate x) = some (Scalar.roundPlaces 6 x) := by
  rcases Exact.exists_decimal_coordinate x with ⟨decimal, written, read⟩
  rw [written, read]

theorem solid_coordinate (x : ℝ) : Solid (Scalar.coordinate x) := by
  rcases Exact.exists_decimal_coordinate x with ⟨decimal, written, -⟩
  rw [written]
  exact solid_decimal decimal

theorem legible (x : ℝ) : Legible x := ⟨solid_coordinate x, read_coordinate x⟩

theorem isLegible (step : Step ℝ) : step.IsLegible := fun number _ => legible number

theorem EndsAt.solid (ends : EndsAt Good command) : command.Solid := by
  cases ends with
  | @move point good => exact (isLegible (.move point)).solid
  | @line point good => exact (isLegible (.line point)).solid
  | @arc radius large sweep finish good =>
      exact (isLegible (.arc radius large sweep finish)).solid
  | close => exact (isLegible .close).solid

theorem EndsAt.finish (ends : EndsAt Good command) :
    command.letter = 'Z' ∨ ∃ point, Good point ∧
      command.finish? =
      some ⟨Scalar.roundPlaces 6 point.x, Scalar.roundPlaces 6 point.y⟩ := by
  have pairs : ∀ (letter : Char) (front : List Text) (point : Point ℝ),
      Command.finish? ⟨letter, front ++ pair point⟩ =
        some (⟨Scalar.roundPlaces 6 point.x,
          Scalar.roundPlaces 6 point.y⟩ : Point ℝ) := by
    intro letter front point
    simp [Command.finish?, pair, read_coordinate]
  cases ends with
  | move good => exact .inr ⟨_, good, pairs 'M' [] _⟩
  | line good => exact .inr ⟨_, good, pairs 'L' [] _⟩
  | arc good => exact .inr ⟨_, good, pairs 'A' _ _⟩
  | close => exact .inl rfl

/-! ## Mirrored end points -/

theorem mapNumber_coordinate (change : ℝ → ℝ) (x : ℝ) :
    mapNumber change (Scalar.coordinate x) =
      Scalar.coordinate (change (Scalar.roundPlaces 6 x)) := (legible x).mapNumber change

theorem EndsAt.mirrored (ends : EndsAt Good command) (axis : ℝ)
    (implies : ∀ point, Good point → Other (reflected axis point)) :
    EndsAt Other (mirrorCommand axis false command) := by
  cases ends with
  | @move point good =>
      change EndsAt Other (mirrorCommand axis false (Step.move point).command)
      rw [(isLegible _).mirrorCommand]
      exact .move (implies _ good)
  | @line point good =>
      change EndsAt Other (mirrorCommand axis false (Step.line point).command)
      rw [(isLegible _).mirrorCommand]
      exact .line (implies _ good)
  | @arc radius large sweep finish good =>
      change EndsAt Other
        (mirrorCommand axis false (Step.arc radius large sweep finish).command)
      rw [(isLegible _).mirrorCommand]
      exact .arc (implies _ good)
  | close => exact .close

theorem EndsAt.imp (ends : EndsAt Good command)
    (implies : ∀ point, Good point → Other point) :
    EndsAt Other command := by
  cases ends with
  | move good => exact .move (implies _ good)
  | line good => exact .line (implies _ good)
  | arc good => exact .arc (implies _ good)
  | close => exact .close

theorem EndsAt.not_isLower (ends : EndsAt Good command) :
    command.letter.isLower = false := by
  cases ends <;> rfl

/-! ## Drawn end points -/

variable {box : Box ℝ}

theorem endsAt_contour {contour : Contour ℝ} (held : ∀ point ∈ contour, box.Holds point) :
    ∀ command ∈ contourCommands contour, EndsAt box.Holds command := by
  intro command member
  cases contour with
  | nil => cases member
  | cons first rest =>
      simp only [contourCommands, List.cons_append, List.mem_cons, List.mem_append,
        List.mem_map, List.not_mem_nil, or_false] at member
      rcases member with rfl | ⟨point, isPoint, rfl⟩ | rfl
      · exact .move (held first (by simp))
      · exact .line (held point (List.mem_cons_of_mem _ isPoint))
      · exact .close

theorem endsAt_primitives {primitives : List (Primitive ℝ)}
    (held : box.HoldsPrimitives primitives) :
    ∀ command ∈ primitives.flatMap Primitive.commands, EndsAt box.Holds command := by
  intro command member
  rcases List.mem_flatMap.mp member with ⟨primitive, isPrimitive, own⟩
  have extent := held primitive isPrimitive
  cases primitive with
  | moveTo point =>
      rcases List.mem_singleton.mp own with rfl
      exact .move (extent point (by simp [Primitive.extent]))
  | lineTo point =>
      rcases List.mem_singleton.mp own with rfl
      exact .line (extent point (by simp [Primitive.extent]))
  | arcTo radius large sweep finish =>
      rcases List.mem_singleton.mp own with rfl
      exact .arc (extent finish (by simp [Primitive.extent]))
  | close =>
      rcases List.mem_singleton.mp own with rfl
      exact .close
  | polygon contour => exact endsAt_contour extent command own
  | circle center radius =>
      have low :=
          extent ⟨center.x - radius, center.y - radius⟩ (by simp [Primitive.extent])
      have high :=
          extent ⟨center.x + radius, center.y + radius⟩ (by simp [Primitive.extent])
      have middle : box.y.Holds center.y := by
        rcases le_total 0 radius with nonneg | nonpos
        · exact low.2.between high.2 (by simpa using nonneg) (by simpa using nonneg)
        · exact high.2.between low.2 (by simpa using nonpos) (by simpa using nonpos)
      simp only [Primitive.commands, List.mem_cons, List.not_mem_nil, or_false] at own
      rcases own with rfl | rfl | rfl | rfl
      · exact .move ⟨high.1, middle⟩
      · exact .arc ⟨low.1, middle⟩
      · exact .arc ⟨high.1, middle⟩
      · exact .close

theorem endsAt_shapes (shapes : List (Shape ℝ)) :
    ∀ command ∈ shapes.flatten.flatMap contourCommands,
      EndsAt (Box.ofShapes shapes).Holds command := by
  intro command member
  rcases List.mem_flatMap.mp member with ⟨contour, isContour, own⟩
  refine endsAt_contour (fun point isPoint => ?_) command own
  exact Box.holds_coverAll _ (List.mem_flatten.mpr ⟨contour, isContour, isPoint⟩)

end Path

/-! ## Boxes and rounding -/

namespace Box

variable {box : Box ℝ} {point : Point ℝ}

def HoldsUpTo (box : Box ℝ) (tolerance : ℝ) (point : Point ℝ) : Prop :=
  ∃ held, box.Holds held ∧ |point.x - held.x| ≤ tolerance ∧ |point.y - held.y| ≤ tolerance

theorem Holds.upTo {tolerance : ℝ} (holds : box.Holds point) (nonneg : 0 ≤ tolerance) :
    box.HoldsUpTo tolerance point :=
  ⟨point, holds, by simpa using nonneg, by simpa using nonneg⟩

theorem HoldsUpTo.rounded {tolerance : ℝ} (holds : box.HoldsUpTo tolerance point) :
    box.HoldsUpTo (tolerance + 5e-7)
      ⟨Scalar.roundPlaces 6 point.x, Scalar.roundPlaces 6 point.y⟩ := by
  rcases holds with ⟨held, isHeld, across, up⟩
  refine ⟨held, isHeld, ?_, ?_⟩
  · apply (abs_sub_le _ point.x _).trans
    linarith [Exact.abs_roundPlaces_sub_le point.x]
  · apply (abs_sub_le _ point.y _).trans
    linarith [Exact.abs_roundPlaces_sub_le point.y]

theorem Holds.mirrored (holds : box.Holds point) :
    box.Holds ⟨box.centerX + (box.centerX - point.x), point.y⟩ := by
  have nonempty := holds.nonempty
  rcases holds with ⟨across, up⟩
  refine ⟨?_, up⟩
  cases span : box.x with
  | none =>
      rw [span] at across
      exact across.elim
  | between low high =>
      rw [span] at across
      have center : box.centerX + box.centerX = low + high := by
        simp only [centerX, left, width, nonempty, Bool.false_eq_true, if_false, span,
          Span.low, Span.high, Exact.two_eq]
        ring
      exact ⟨by linarith [across.2], by linarith [across.1]⟩

theorem Holds.reflected (holds : box.Holds point) :
    box.HoldsUpTo 5e-7 (Path.reflected box.centerX point) := by
  refine ⟨_, holds.mirrored, ?_, by norm_num [Path.reflected]⟩
  have near := Exact.abs_roundPlaces_sub_le point.x
  rw [abs_sub_comm] at near
  have same : (Path.reflected box.centerX point).x -
      (box.centerX + (box.centerX - point.x)) =
      point.x - Scalar.roundPlaces 6 point.x := by
    simp only [Path.reflected]
    ring
  simpa only [same] using near

end Box

/-! ## Layers -/

namespace Clearance

theorem box_compute {K : Type} [PlaneScalar K] (cutter : Cutter K) (request : Request K) :
    (compute cutter request).value.box =
      .ofShapes (compute cutter request).value.shapes := by
  unfold compute
  cases refusal? request with
  | some warning => rfl
  | none =>
      cases settle (cutter (request.plate.shapes request.margin) request.traces) <;> rfl

end Clearance

namespace Geometry

def IsBounded (geometry : Geometry ℝ) : Prop :=
  ∃ commands, (∀ command ∈ commands, Path.EndsAt geometry.box.Holds command) ∧
    geometry.path = Path.Command.spell commands

variable {text : Text}

theorem isBounded_direct (cutter : Cutter ℝ) (options : Options ℝ)
    (plate : Option (Plate ℝ))
    (fair : ∀ operation ∈ Machine.start.trace (Program.ofBlocks (Block.scan text)).value,
      operation.IsFair) :
    (ofLayer cutter text { options with mirror := false } plate).value.IsBounded := by
  have closed :=
      Machine.closedRow_plot (Program.ofBlocks (K := ℝ) (Block.scan text)).value
  apply direct_cases
  · exact ⟨[], by simp, rfl⟩
  · exact ⟨_, Path.endsAt_primitives (Machine.bounded_plot fair).primitives,
      Path.ofPrimitives_eq_spell closed.commands_ne_nil⟩
  · intro request _
    refine ⟨_, ?_, rfl⟩
    rw [Clearance.box_compute]
    exact Path.endsAt_shapes _

/-- A mirrored path ends in the box, up to one rounding. -/
theorem IsBounded.mirrored {geometry : Geometry ℝ} (bounded : geometry.IsBounded) :
    ∃ commands,
    (∀ command ∈ commands, Path.EndsAt (geometry.box.HoldsUpTo 5e-7) command) ∧
      geometry.mirrored.path = Path.Command.spell commands := by
  rcases bounded with ⟨commands, ends, spelled⟩
  simp only [Geometry.mirrored, Path.mirror, spelled]
  split
  · refine ⟨commands, fun command member => ?_, rfl⟩
    exact (ends command member).imp fun point holds => holds.upTo (by norm_num)
  · rw [Path.read_spell fun command member => (ends command member).solid,
      Path.mirrorCommands_eq_map _ fun command member =>
        (ends command member).not_isLower]
    refine ⟨_, fun command member => ?_, rfl⟩
    rcases List.mem_map.mp member with ⟨original, isOriginal, rfl⟩
    exact (ends original isOriginal).mirrored _ fun point holds => holds.reflected

theorem holds_finish {commands : List Path.Command} {box : Box ℝ} {tolerance : ℝ}
    (ends : ∀ command ∈ commands, Path.EndsAt (box.HoldsUpTo tolerance) command) :
    ∀ command ∈ Path.read (Path.Command.spell commands), command.letter = 'Z' ∨
      ∃ finish, command.finish? = some finish ∧
      box.HoldsUpTo (tolerance + 5e-7) finish := by
  rw [Path.read_spell fun command member => (ends command member).solid]
  intro command member
  rcases (ends command member).finish with close | ⟨point, held, read⟩
  · exact .inl close
  · exact .inr ⟨_, read, held.rounded⟩

/-- The end points of the path of a layer are read in its box, up to the rounding of
each writing. -/
theorem holds_finish_ofLayer (cutter : Cutter ℝ) (options : Options ℝ)
    (plate : Option (Plate ℝ))
    (fair : ∀ operation ∈ Machine.start.trace (Program.ofBlocks (Block.scan text)).value,
      operation.IsFair) :
    let geometry := (ofLayer cutter text options plate).value
    ∀ command ∈ Path.read geometry.path, command.letter = 'Z' ∨
      ∃ finish, command.finish? = some finish ∧
        geometry.box.HoldsUpTo (if options.mirror then 1e-6 else 5e-7) finish := by
  have bounded := isBounded_direct cutter options plate fair
  rw [ofLayer_eq]
  cases options.mirror with
  | true =>
      rcases bounded.mirrored with ⟨commands, ends, spelled⟩
      have twice : (5e-7 : ℝ) + 5e-7 = 1e-6 := by norm_num
      have held := holds_finish ends
      rw [twice] at held
      simp only [if_true, spelled]
      exact held
  | false =>
      rcases bounded with ⟨commands, ends, spelled⟩
      have held := holds_finish fun command member =>
        (ends command member).imp fun point holds => holds.upTo le_rfl
      rw [zero_add] at held
      simpa only [Bool.false_eq_true, if_false, spelled] using held

/-- The box of a plot holds all primitives. It holds all vertices as well if it holds
those of displaced edges, and there are none unless a flash moves the current point
inside of a region. The box of a layer holds the end points of its path. -/
theorem box_bounds {commands : List (Command ℝ)}
    (fair : ∀ operation ∈ Machine.start.trace commands, operation.IsFair) :
    let plot := (Machine.plot commands).value
    plot.box.HoldsPrimitives plot.primitives ∧
      ((∀ shape ∈ plot.shapes, plot.box.HoldsShape shape) ↔
        ∀ point ∈ Machine.displaced commands, plot.box.Holds point) ∧
      (Machine.start.NeverFlashesInRegion commands → Machine.displaced commands = []) ∧
      (plot.primitives = [] → plot.box = .empty) ∧
      (plot.box.isEmpty = true → plot.primitives = []) ∧
      ∀ text, (Program.ofBlocks (Block.scan text)).value = commands →
        ∀ (cutter : Cutter ℝ) (options : Options ℝ) (plate : Option (Plate ℝ)),
          let geometry := (ofLayer cutter text options plate).value
          ∀ command ∈ Path.read geometry.path, command.letter = 'Z' ∨
            ∃ finish, command.finish? = some finish ∧
              geometry.box.HoldsUpTo (if options.mirror then 1e-6 else 5e-7) finish := by
  have bounded := Machine.bounded_plot fair
  refine ⟨bounded.primitives, bounded.holdsShape_iff, Machine.displaced_eq_nil,
    bounded.empty, bounded.primitives_eq_nil (Machine.closedRow_plot commands), ?_⟩
  intro text scanned cutter options plate
  rw [← scanned] at fair
  exact holds_finish_ofLayer cutter options plate fair

theorem box_bounds_flashedRegion :
    let plot := (Machine.plot Machine.flashedRegion).value
    (∀ operation ∈ Machine.start.trace Machine.flashedRegion, operation.IsFair) ∧
      plot.box.HoldsPrimitives plot.primitives ∧
      ((∀ shape ∈ plot.shapes, plot.box.HoldsShape shape) ↔
        ∀ point ∈ Machine.displaced Machine.flashedRegion, plot.box.Holds point) :=
  have bounds := box_bounds Machine.fair_flashedRegion
  ⟨Machine.fair_flashedRegion, bounds.1, bounds.2.1⟩

end Geometry

end Photoplot
