import Photoplot.Proofs.Path.Grammar

/-! # Steps of a drawing

A drawing is spelled as a row of steps. Its text is read as exactly these steps, and
mirroring the text is mirroring each of them, as far as every number is written in one
piece that is read as the rounded number. -/

namespace Photoplot.Path

/-! ## Steps -/

inductive Step (K : Type)
  | move (point : Point K)
  | line (point : Point K)
  | arc (radius : K) (large sweep : Bool) (finish : Point K)
  | close
  deriving DecidableEq, Repr

variable {K : Type} [Scalar K]

def reflected (axis : K) (point : Point K) : Point K :=
  ⟨axis + (axis - Scalar.roundPlaces 6 point.x), point.y⟩

namespace Step

def command : Step K → Command
  | .move point => ⟨'M', pair point⟩
  | .line point => ⟨'L', pair point⟩
  | .arc radius large sweep finish => arcCommand radius large sweep finish
  | .close => ⟨'Z', []⟩

def mirrored (axis : K) : Step K → Step K
  | .move point => .move (reflected axis point)
  | .line point => .line (reflected axis point)
  | .arc radius large sweep finish => .arc radius large (!sweep) (reflected axis finish)
  | .close => .close

def numbers : Step K → List K
  | .move point => [point.x, point.y]
  | .line point => [point.x, point.y]
  | .arc radius _ _ finish => [radius, finish.x, finish.y]
  | .close => []

end Step

def contourSteps : Contour K → List (Step K)
  | [] => []
  | first :: rest => .move first :: rest.map .line ++ [.close]

def Primitive.steps : Primitive K → List (Step K)
  | .moveTo point => [.move point]
  | .lineTo point => [.line point]
  | .arcTo radius large sweep finish => [.arc radius large sweep finish]
  | .close => [.close]
  | .polygon contour => contourSteps contour
  | .circle center radius =>
      let right : Point K := ⟨center.x + radius, center.y⟩
      let left : Point K := ⟨center.x - radius, center.y⟩
      [.move right, .arc radius false true left, .arc radius false true right, .close]

theorem contourCommands_eq (contour : Contour K) :
    contourCommands contour = (contourSteps contour).map Step.command := by
  cases contour with
  | nil => rfl
  | cons first rest =>
      simp only [contourCommands, contourSteps, List.map_append, List.map_cons,
        List.map_map]
      rfl

theorem Primitive.commands_eq (primitive : Primitive K) :
    primitive.commands = primitive.steps.map Step.command := by
  cases primitive with
  | polygon contour => exact contourCommands_eq contour
  | moveTo point => rfl
  | lineTo point => rfl
  | arcTo radius large sweep finish => rfl
  | close => rfl
  | circle center radius => rfl

/-! ## Legible numbers -/

structure Legible (number : K) : Prop where
  solid : Solid (Scalar.coordinate number)
  read : Scalar.read? (Scalar.coordinate number) = some (Scalar.roundPlaces 6 number)

theorem Legible.mapNumber {number : K} (legible : Legible number) (change : K → K) :
    mapNumber change (Scalar.coordinate number) =
      Scalar.coordinate (change (Scalar.roundPlaces 6 number)) := by
  rw [Path.mapNumber, legible.read]

theorem solid_flag (set : Bool) : Solid (flag set) := by
  cases set with
  | true => exact solid_run rfl
  | false => exact solid_run rfl

namespace Step

def IsLegible (step : Step K) : Prop := ∀ number ∈ step.numbers, Legible number

variable {step : Step K}

theorem IsLegible.solid (legible : step.IsLegible) : step.command.Solid := by
  have pairs : ∀ point : Point K, Legible point.x → Legible point.y →
      ∀ operand ∈ pair point, Solid operand := by
    intro point x y operand member
    simp only [pair, List.mem_cons, List.not_mem_nil, or_false] at member
    rcases member with rfl | rfl
    · exact x.solid
    · exact y.solid
  cases step with
  | move point =>
      exact ⟨(by decide : isLetter 'M' = true),
        pairs point (legible _ (by simp [numbers])) (legible _ (by simp [numbers]))⟩
  | line point =>
      exact ⟨(by decide : isLetter 'L' = true),
        pairs point (legible _ (by simp [numbers])) (legible _ (by simp [numbers]))⟩
  | arc radius large sweep finish =>
      refine ⟨(by decide : isLetter 'A' = true), ?_⟩
      intro operand member
      rcases List.mem_append.mp member with front | isPair
      · simp only [List.mem_cons, List.not_mem_nil, or_false] at front
        rcases front with rfl | rfl | rfl | rfl | rfl
        · exact (legible radius (by simp [numbers])).solid
        · exact (legible radius (by simp [numbers])).solid
        · exact solid_run rfl
        · exact solid_flag large
        · exact solid_flag sweep
      · exact pairs finish (legible _ (by simp [numbers])) (legible _ (by simp [numbers]))
          operand isPair
  | close => exact ⟨(by decide : isLetter 'Z' = true), by simp [command]⟩

/-- A mirrored command is that of the mirrored step. -/
theorem IsLegible.mirrorCommand (legible : step.IsLegible) (axis : K) :
    mirrorCommand axis false step.command = (step.mirrored axis).command := by
  have pairs : ∀ point : Point K, Legible point.x →
      [Path.mapNumber (fun x => axis + (axis - x)) (Scalar.coordinate point.x),
        Scalar.coordinate point.y] = pair (reflected axis point) := by
    intro point x
    rw [x.mapNumber]
    rfl
  cases step with
  | move point =>
      change _ = (⟨'M', pair (reflected axis point)⟩ : Command)
      rw [← pairs point (legible _ (by simp [numbers]))]
      rfl
  | line point =>
      change _ = (⟨'L', pair (reflected axis point)⟩ : Command)
      rw [← pairs point (legible _ (by simp [numbers]))]
      rfl
  | arc radius large sweep finish =>
      rw [mirrored, command, command, arcCommand, arcCommand,
        ← pairs finish (legible _ (by simp [numbers]))]
      cases sweep <;> rfl
  | close => rfl

theorem isLower_command (step : Step K) : step.command.letter.isLower = false := by
  cases step with
  | move point => exact (by decide : 'M'.isLower = false)
  | line point => exact (by decide : 'L'.isLower = false)
  | arc radius large sweep finish => exact (by decide : 'A'.isLower = false)
  | close => exact (by decide : 'Z'.isLower = false)

end Step

/-! ## Texts -/

theorem read_ofPrimitives {primitives : List (Primitive K)}
    (legible : ∀ step ∈ primitives.flatMap Primitive.steps, step.IsLegible) :
    read (ofPrimitives primitives) =
      (primitives.flatMap Primitive.steps).map Step.command := by
  have dropped : ∀ texts : List Text,
      (texts.dropWhile List.isEmpty).flatMap (tokens []) = texts.flatMap (tokens []) := by
    intro texts
    induction texts with
    | nil => rfl
    | cons text rest induction =>
        cases text with
        | nil => exact induction
        | cons c others => rfl
  have spelled :
      (primitives.map fun primitive => Command.spell primitive.commands).flatMap
        (tokens []) =
      ((primitives.flatMap Primitive.steps).map Step.command).flatMap fun command =>
        .letter command.letter :: command.operands.map .operand := by
    rw [List.flatMap_map, List.map_flatMap, List.flatMap_assoc]
    apply List.flatMap_congr
    intro primitive member
    rw [primitive.commands_eq]
    apply tokens_spell
    intro command isCommand
    rcases List.mem_map.mp isCommand with ⟨step, isStep, rfl⟩
    exact (legible step (List.mem_flatMap.mpr ⟨primitive, member, isStep⟩)).solid
  rw [read, ofPrimitives, tokens_join, dropped, spelled, gather_commands]

theorem read_ofShapes {shapes : List (Shape K)}
    (legible : ∀ step ∈ shapes.flatten.flatMap contourSteps, step.IsLegible) :
    read (ofShapes shapes) = (shapes.flatten.flatMap contourSteps).map Step.command := by
  have commands : shapes.flatten.flatMap contourCommands =
      (shapes.flatten.flatMap contourSteps).map Step.command := by
    rw [List.map_flatMap]
    apply List.flatMap_congr
    intro contour _
    exact contourCommands_eq contour
  rw [ofShapes, commands]
  apply read_spell
  intro command isCommand
  rcases List.mem_map.mp isCommand with ⟨step, isStep, rfl⟩
  exact (legible step isStep).solid

/-- A text that is read as legible steps is mirrored step by step. -/
theorem mirror_eq {text : Text} {steps : List (Step K)} {box : Box K}
    (isRead : read text = steps.map Step.command)
    (legible : ∀ step ∈ steps, step.IsLegible) (nonempty : box.isEmpty = false) :
    mirror text box =
      Command.spell (steps.map fun step => (step.mirrored box.centerX).command) := by
  have absolute : ∀ command ∈ steps.map Step.command, command.letter.isLower = false := by
    intro command isCommand
    rcases List.mem_map.mp isCommand with ⟨step, -, rfl⟩
    exact step.isLower_command
  have commands : (steps.map Step.command).map (mirrorCommand box.centerX false) =
      steps.map fun step => (step.mirrored box.centerX).command := by
    rw [List.map_map]
    apply List.map_congr_left
    intro step isStep
    exact (legible step isStep).mirrorCommand box.centerX
  rw [mirror, if_neg (Bool.eq_false_iff.mp nonempty), isRead,
    mirrorCommands_eq_map _ absolute, commands]

end Photoplot.Path
