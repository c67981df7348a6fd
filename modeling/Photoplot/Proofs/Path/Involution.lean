import Photoplot.Proofs.Layer.Bounds

/-! # Paths mirrored twice

Mirroring a path twice about the same axis restores it, operand by operand. Only the
rounding of absolute positions can get in the way: if twice the axis lies half way
between two written values, such a position may come back as a neighbour. -/

namespace Photoplot.Path

/-! ## Canonical paths -/

def Command.IsCanonical (command : Command) : Prop :=
  isLetter command.letter = true ∧ ∀ operand ∈ command.operands, IsCoordinate ℝ operand

theorem Command.IsCanonical.solid {command : Command} (canonical : command.IsCanonical) :
    command.Solid := by
  refine ⟨canonical.1, fun operand member => ?_⟩
  rcases canonical.2 operand member with ⟨x, rfl⟩
  exact solid_coordinate x

theorem coordinate_natCast (number : ℕ) : Scalar.coordinate
    (number : ℝ) = Digits.ofNat number := by
  rw [Scalar.coordinate, (Exact.hasPlaces_natCast number 6).roundPlaces]
  exact Exact.text_natCast number

/-- Flags are numbers as well. -/
theorem isCoordinate_flag (set : Bool) : IsCoordinate ℝ (flag set) := by
  have zero : Digits.ofNat 0 = ['0'] := by simp [Digits.ofNat, Digits.digitOf]
  have one : Digits.ofNat 1 = ['1'] := by simp [Digits.ofNat, Digits.digitOf]
  cases set with
  | true => exact ⟨(1 : ℕ), by rw [coordinate_natCast, one]; rfl⟩
  | false => exact ⟨(0 : ℕ), by rw [coordinate_natCast, zero]; rfl⟩

theorem isCoordinate_flipFlag {operand : Text} (coordinate : IsCoordinate ℝ operand) :
    IsCoordinate ℝ (flipFlag operand) := by
  unfold flipFlag
  split
  · exact isCoordinate_flag true
  split
  · exact isCoordinate_flag false
  · exact coordinate

theorem flipFlag_flipFlag (operand : Text) : flipFlag (flipFlag operand) = operand := by
  unfold flipFlag
  split
  · rename_i zero
    exact zero.symm
  split
  · rename_i one
    exact one.symm
  · rfl

/-! ## Operands -/

def isPosition (leading : Bool) (letter : Char) (index : ℕ) : Bool :=
  isHorizontal letter index &&
    !(letter.isLower && !(leading && letter = 'm' && decide (index < 2)))

theorem isCoordinate_change (change : ℝ → ℝ) {operand : Text}
    (coordinate : IsCoordinate ℝ operand) :
    IsCoordinate ℝ (mapNumber change operand) := by
  rcases coordinate with ⟨x, rfl⟩
  exact ⟨_, mapNumber_coordinate change x⟩

theorem isCoordinate_mirrorOperand (axis : ℝ) (leading : Bool) (letter : Char) (index : ℕ)
    {operand : Text} (coordinate : IsCoordinate ℝ operand) :
    IsCoordinate ℝ (mirrorOperand axis leading letter index operand) := by
  unfold mirrorOperand
  split
  · exact isCoordinate_flipFlag coordinate
  split
  · exact coordinate
  split
  · exact isCoordinate_change _ coordinate
  · exact isCoordinate_change _ coordinate

/-- The `x` of a point is never an arc's flag. -/
theorem mirrorOperand_position (axis : ℝ) {leading : Bool} {letter : Char} {index : ℕ}
    (position : isPosition leading letter index = true) (operand : Text) :
    mirrorOperand axis leading letter index operand =
      mapNumber (fun x : ℝ => axis + (axis - x)) operand := by
  simp only [isPosition, Bool.and_eq_true, Bool.not_eq_true'] at position
  have notSweep : (decide (letter.toUpper = 'A') && index % arcFields ==
      arcSweepField) = false := by
    by_cases arc : letter.toUpper = 'A'
    · have field := position.1
      simp only [isHorizontal, arc, arcEndField, arcSweepField] at field ⊢
      simp at field ⊢
      omega
    · simp [arc]
  unfold mirrorOperand
  rw [notSweep, position.1, position.2]
  simp only [Bool.false_eq_true, if_false, Bool.not_true]

/-- What is no position comes back as it was. -/
theorem mirrorOperand_twice (axis : ℝ) {leading : Bool} {letter : Char} {index : ℕ}
    (noPosition : isPosition leading letter index = false) {operand : Text}
    (coordinate : IsCoordinate ℝ operand) :
    mirrorOperand axis leading letter index
      (mirrorOperand axis leading letter index operand) =
      operand := by
  unfold mirrorOperand
  split
  · exact flipFlag_flipFlag operand
  split
  · rfl
  rename_i horizontal
  split
  · rcases coordinate with ⟨x, rfl⟩
    have places := Exact.hasPlaces_roundPlaces x
    rw [mapNumber_coordinate, mapNumber_coordinate, places.neg.roundPlaces, neg_neg,
      Scalar.coordinate, places.roundPlaces, Scalar.coordinate]
  · rename_i absolute
    have isHorizontal : isHorizontal letter index = true := by simpa using horizontal
    simp only [isPosition, isHorizontal, Bool.true_and, Bool.not_eq_false'] at noPosition
    exact (absolute noPosition).elim

/-! ## Positions -/

noncomputable def reflectedPlaces (axis value : ℝ) : ℝ :=
  Scalar.roundPlaces 6 (axis + (axis - value))

theorem reflectedPlaces_twice (axis : ℝ) {value : ℝ} (places : Exact.HasPlaces value 6)
    (between : ¬Exact.IsHalfway (2 * axis)) :
    reflectedPlaces axis (reflectedPlaces axis value) = value := by
  have fair : ¬Exact.IsHalfway (axis + (axis - value)) := by
    intro halfway
    have sum : axis + (axis - value) + value = 2 * axis := by ring
    exact between (sum ▸ halfway.add places)
  have near := Exact.abs_roundPlaces_sub_lt fair
  rw [abs_sub_comm] at near
  have same : axis + (axis - Scalar.roundPlaces 6 (axis + (axis - value))) - value =
      axis + (axis - value) - Scalar.roundPlaces 6 (axis + (axis - value)) := by ring
  exact Exact.roundPlaces_eq_of_abs_lt places (by rwa [reflectedPlaces, same])

theorem abs_reflectedPlaces_twice_sub_le (axis value : ℝ) :
    |reflectedPlaces axis (reflectedPlaces axis value) - value| ≤ 1e-6 := by
  have first := Exact.abs_roundPlaces_sub_le (axis + (axis - value))
  have second := Exact.abs_roundPlaces_sub_le (axis + (axis - reflectedPlaces axis value))
  have millionth : (5e-7 : ℝ) + 5e-7 = 1e-6 := by norm_num
  have detour : reflectedPlaces axis (reflectedPlaces axis value) - value =
      (reflectedPlaces axis (reflectedPlaces axis value) -
          (axis + (axis - reflectedPlaces axis value))) -
        (reflectedPlaces axis value - (axis + (axis - value))) := by ring
  rw [detour, ← millionth]
  exact (abs_sub _ _).trans (add_le_add second first)

theorem mirrorOperand_position_twice (axis : ℝ) {leading : Bool}
    {letter : Char} {index : ℕ}
    (position : isPosition leading letter index = true) (x : ℝ) :
    mirrorOperand axis leading letter index
        (mirrorOperand axis leading letter index (Scalar.coordinate x)) =
      Scalar.coordinate
        (reflectedPlaces axis (reflectedPlaces axis (Scalar.roundPlaces 6 x))) := by
  have written : ∀ value : ℝ,
      Scalar.coordinate (Scalar.roundPlaces 6 value) = Scalar.coordinate value := by
    intro value
    rw [Scalar.coordinate, (Exact.hasPlaces_roundPlaces value).roundPlaces,
      Scalar.coordinate]
  rw [mirrorOperand_position axis position, mirrorOperand_position axis position,
    mapNumber_coordinate, mapNumber_coordinate, reflectedPlaces, written, reflectedPlaces]

/-! ## Commands -/

theorem isCanonical_mirrorCommand (axis : ℝ) (leading : Bool) {command : Command}
    (canonical : command.IsCanonical) :
    (mirrorCommand axis leading command).IsCanonical := by
  refine ⟨canonical.1, fun operand member => ?_⟩
  rcases List.mem_mapIdx.mp member with ⟨index, inside, rfl⟩
  exact isCoordinate_mirrorOperand axis leading command.letter index
    (canonical.2 _ (List.getElem_mem inside))

theorem mirrorCommands_eq_mapIdx (axis : ℝ) (commands : List Command) :
    mirrorCommands axis commands =
      commands.mapIdx fun index command => mirrorCommand axis (index == 0) command := by
  cases commands with
  | nil => rfl
  | cons first rest =>
      rw [List.mapIdx_cons, mirrorCommands]
      have others : rest.mapIdx (fun index command =>
          mirrorCommand axis (index + 1 == 0) command) =
            rest.map (mirrorCommand axis false) := by
        apply List.mapIdx_eq_iff.mpr
        intro index
        exact List.getElem?_map
      rw [others]
      rfl

/-- The second number has six decimals at most and is a millionth away from the first
one at most. -/
def IsNeighbour (operand other : Text) : Prop :=
  IsCoordinate ℝ other ∧ ∃ x x' : ℝ, Scalar.read? operand = some x ∧
    Scalar.read? other = some x' ∧ |x' - x| ≤ 1e-6

/-- What a command comes back as: positions may have moved to a neighbouring value, and
nothing else has changed. -/
structure Command.Returned (leading : Bool) (command other : Command) : Prop where
  letter : other.letter = command.letter
  count : other.operands.length = command.operands.length
  positions : ∀ index, isPosition leading command.letter index = true →
    ∀ operand ∈ command.operands[index]?, ∃ returned ∈ other.operands[index]?,
      IsNeighbour operand returned
  others : ∀ index, isPosition leading command.letter index = false →
    other.operands[index]? = command.operands[index]?

theorem isNeighbour_mirrorOperand_twice (axis : ℝ) {leading : Bool}
    {letter : Char} {index : ℕ}
    (position : isPosition leading letter index = true) {operand : Text}
    (coordinate : IsCoordinate ℝ operand) :
    IsNeighbour operand (mirrorOperand axis leading letter index
      (mirrorOperand axis leading letter index operand)) := by
  rcases coordinate with ⟨x, rfl⟩
  rw [mirrorOperand_position_twice axis position]
  refine ⟨⟨_, rfl⟩, _, _, read_coordinate x, read_coordinate _, ?_⟩
  rw [reflectedPlaces, (Exact.hasPlaces_roundPlaces _).roundPlaces, ← reflectedPlaces]
  exact abs_reflectedPlaces_twice_sub_le axis _

theorem getElem?_mirrorCommand_twice (axis : ℝ) (leading : Bool) (command : Command)
    (index : ℕ) :
    (mirrorCommand axis leading (mirrorCommand axis leading command)).operands[index]? =
      command.operands[index]?.map fun operand =>
        mirrorOperand axis leading command.letter index
          (mirrorOperand axis leading command.letter index operand) := by
  simp only [mirrorCommand, List.getElem?_mapIdx, Option.map_map]
  rfl

theorem Command.IsCanonical.returned (axis : ℝ) (leading : Bool) {command : Command}
    (canonical : command.IsCanonical) :
    command.Returned leading
      (mirrorCommand axis leading (mirrorCommand axis leading command)) := by
  refine ⟨rfl, by simp [mirrorCommand], ?_, ?_⟩
  · intro index position operand member
    refine ⟨_, ?_, isNeighbour_mirrorOperand_twice axis position
      (canonical.2 operand (List.mem_of_getElem? member))⟩
    rw [getElem?_mirrorCommand_twice, member]
    rfl
  · intro index noPosition
    rw [getElem?_mirrorCommand_twice]
    cases found : command.operands[index]? with
    | none => rfl
    | some operand =>
        exact congrArg some (mirrorOperand_twice axis noPosition
          (canonical.2 operand (List.mem_of_getElem? found)))

theorem Command.IsCanonical.restored {axis : ℝ} (between : ¬Exact.IsHalfway (2 * axis))
    (leading : Bool) {command : Command} (canonical : command.IsCanonical) :
    mirrorCommand axis leading (mirrorCommand axis leading command) = command := by
  have operands :
      (mirrorCommand axis leading (mirrorCommand axis leading command)).operands =
      command.operands := by
    apply List.ext_getElem?
    intro index
    rw [getElem?_mirrorCommand_twice]
    cases found : command.operands[index]? with
    | none => rfl
    | some operand =>
        have coordinate := canonical.2 operand (List.mem_of_getElem? found)
        refine congrArg some ?_
        cases position : isPosition leading command.letter index with
        | false => exact mirrorOperand_twice axis position coordinate
        | true =>
            rcases coordinate with ⟨x, rfl⟩
            have places := Exact.hasPlaces_roundPlaces x
            change mirrorOperand axis leading command.letter index
              (mirrorOperand axis leading command.letter index (Scalar.coordinate x)) = _
            rw [mirrorOperand_position_twice axis position,
              reflectedPlaces_twice axis places between, Scalar.coordinate,
              places.roundPlaces, Scalar.coordinate]
  exact Command.mk.injEq _ _ _ _ ▸ ⟨rfl, operands⟩

/-! ## Paths -/

theorem mirror_spell (box : Box ℝ) {commands : List Command}
    (canonical : ∀ command ∈ commands, command.IsCanonical) :
    mirror (Command.spell commands) box =
      Command.spell (if box.isEmpty then commands
        else mirrorCommands box.centerX commands) := by
  unfold mirror
  split
  · rfl
  · rw [read_spell fun command member => (canonical command member).solid]

theorem isCanonical_mirrorCommands (axis : ℝ) {commands : List Command}
    (canonical : ∀ command ∈ commands, command.IsCanonical) :
    ∀ command ∈ mirrorCommands axis commands, command.IsCanonical := by
  rw [mirrorCommands_eq_mapIdx]
  intro command member
  rcases List.mem_mapIdx.mp member with ⟨index, inside, rfl⟩
  exact isCanonical_mirrorCommand axis _ (canonical _ (List.getElem_mem inside))

theorem getElem?_mirrorCommands_twice (axis : ℝ) (commands : List Command) (index : ℕ) :
    (mirrorCommands axis (mirrorCommands axis commands))[index]? =
      commands[index]?.map fun command =>
        mirrorCommand axis (index == 0) (mirrorCommand axis (index == 0) command) := by
  rw [mirrorCommands_eq_mapIdx, mirrorCommands_eq_mapIdx]
  simp only [List.getElem?_mapIdx, Option.map_map]
  rfl

/-- A path of canonical commands that is mirrored twice is the same text, unless twice
the axis lies half way between two written values. In that case the commands are the
same up to positions, which are neighbours of what they were. -/
theorem mirror_mirror {box : Box ℝ} (nonempty : box.isEmpty = false)
    {commands : List Command} (canonical : ∀ command ∈ commands, command.IsCanonical) :
    let path := Command.spell commands
    (¬Exact.IsHalfway (2 * box.centerX) → mirror (mirror path box) box = path) ∧
      ∃ others, mirror (mirror path box) box = Command.spell others ∧
        others.length = commands.length ∧
        ∀ (index : ℕ) (command : Command), commands[index]? = some command →
          ∃ other, others[index]? = some other ∧ command.Returned (index == 0) other := by
  intro path
  have twice : mirror (mirror path box) box =
      Command.spell
        (mirrorCommands box.centerX (mirrorCommands box.centerX commands)) := by
    rw [mirror_spell box canonical, if_neg (Bool.eq_false_iff.mp nonempty),
      mirror_spell box (isCanonical_mirrorCommands _ canonical),
      if_neg (Bool.eq_false_iff.mp nonempty)]
  refine ⟨fun between => ?_, _, twice, ?_, ?_⟩
  · have restored :
        mirrorCommands box.centerX (mirrorCommands box.centerX commands) = commands := by
      apply List.ext_getElem?
      intro index
      rw [getElem?_mirrorCommands_twice]
      cases found : commands[index]? with
      | none => rfl
      | some command =>
          have isCanonical := canonical command (List.mem_of_getElem? found)
          exact congrArg some (isCanonical.restored between _)
    rw [twice, restored]
  · simp only [mirrorCommands_eq_mapIdx, List.length_mapIdx]
  · intro index command found
    refine ⟨_, ?_,
      (canonical command (List.mem_of_getElem? found)).returned box.centerX _⟩
    rw [getElem?_mirrorCommands_twice, found]
    rfl

noncomputable def relativeArc : List Command :=
  [⟨'m', [Scalar.coordinate (1.5 : ℝ), Scalar.coordinate (2.5 : ℝ),
      Scalar.coordinate (-1 : ℝ), Scalar.coordinate (0 : ℝ)]⟩,
    ⟨'l', [Scalar.coordinate (0.25 : ℝ), Scalar.coordinate (0.000001 : ℝ)]⟩,
    ⟨'A', [Scalar.coordinate (1 : ℝ), Scalar.coordinate (1 : ℝ),
      Scalar.coordinate (0 : ℝ), flag false, flag true, Scalar.coordinate (3.5 : ℝ),
      Scalar.coordinate (0 : ℝ)]⟩,
    ⟨'z', []⟩]

theorem isCanonical_relativeArc : ∀ command ∈ relativeArc, command.IsCanonical := by
  have coordinate : ∀ x : ℝ, IsCoordinate ℝ (Scalar.coordinate x) := fun x => ⟨x, rfl⟩
  intro command member
  simp only [relativeArc, List.mem_cons, List.not_mem_nil, or_false] at member
  rcases member with rfl | rfl | rfl | rfl
  · exact ⟨by decide, by simp [coordinate]⟩
  · exact ⟨by decide, by simp [coordinate]⟩
  · exact ⟨by decide, by simp [coordinate, isCoordinate_flag]⟩
  · exact ⟨by decide, by simp⟩

def strip (width : ℝ) : Box ℝ := ⟨.between 0 width, .between 0 1⟩

theorem isEmpty_strip {width : ℝ} (nonneg : 0 ≤ width) :
    (strip width).isEmpty = false := by
  simp [strip, Box.isEmpty, Span.isEmpty, nonneg]

theorem two_mul_centerX_strip {width : ℝ} (nonneg : 0 ≤ width) :
    2 * (strip width).centerX = width := by
  simp only [Box.centerX, Box.left, Box.width, isEmpty_strip nonneg, Bool.false_eq_true,
    if_false, Exact.two_eq]
  simp only [strip, Span.low, Span.high]
  ring

/-- The axis need not be a written value for a path to come back as it was. -/
theorem mirror_mirror_relativeArc :
    let path := Command.spell relativeArc
    mirror (mirror path (strip 3e-7)) (strip 3e-7) = path ∧
      Exact.IsHalfway (2 * (strip 5e-7).centerX) ∧
      ∃ others, mirror (mirror path (strip 5e-7)) (strip 5e-7) = Command.spell others ∧
        others.length = relativeArc.length ∧
        ∀ (index : ℕ) (command : Command), relativeArc[index]? = some command →
          ∃ other, others[index]? = some other ∧ command.Returned (index == 0) other := by
  have between : ¬Exact.IsHalfway (2 * (strip 3e-7).centerX) := by
    rw [two_mul_centerX_strip (by norm_num)]
    rintro ⟨whole, half⟩
    have scaled : ((10 * whole : ℤ) : ℝ) = ((-2 : ℤ) : ℝ) := by
      push_cast
      linarith
    have impossible := Int.cast_injective scaled
    omega
  have halfway : Exact.IsHalfway (2 * (strip 5e-7).centerX) := by
    rw [two_mul_centerX_strip (by norm_num)]
    exact ⟨0, by norm_num⟩
  exact ⟨(mirror_mirror (isEmpty_strip (by norm_num)) isCanonical_relativeArc).1 between,
    halfway, (mirror_mirror (isEmpty_strip (by norm_num)) isCanonical_relativeArc).2⟩

end Photoplot.Path
