import Photoplot.Proofs.Path.Reading
import Photoplot.Path.Mirrored
import Photoplot.Path.Primitive
import Photoplot.Scalar.Binary64

/-! # The grammar of drawn paths

A drawn path is a row of closed subpaths. Each of them begins with a move, goes
on with at least one line or arc, and ends where it began. Mirroring takes drawn
paths to drawn paths. -/

namespace Photoplot.Path

inductive Segment
  | line (x y : Text)
  | arc (radius : Text) (large sweep : Bool) (x y : Text)
  deriving DecidableEq, Repr

namespace Segment

def command : Segment → Command
  | .line x y => ⟨'L', [x, y]⟩
  | .arc radius large sweep x y =>
      ⟨'A', [radius, radius, ['0'], flag large, flag sweep, x, y]⟩

def numbers : Segment → List Text
  | .line x y => [x, y]
  | .arc radius _ _ x y => [radius, x, y]

end Segment

structure Subpath where
  x : Text
  y : Text
  first : Segment
  rest : List Segment
  deriving DecidableEq, Repr

namespace Subpath

def commands (subpath : Subpath) : List Command :=
  ⟨'M', [subpath.x, subpath.y]⟩ ::
    (subpath.first :: subpath.rest).map Segment.command ++ [⟨'Z', []⟩]

def numbers (subpath : Subpath) : List Text :=
  [subpath.x, subpath.y] ++ (subpath.first :: subpath.rest).flatMap Segment.numbers

end Subpath

def Drawn (IsNumber : Text → Prop) (commands : List Command) : Prop :=
  ∃ subpaths : List Subpath,
    (∀ subpath ∈ subpaths, ∀ number ∈ subpath.numbers, IsNumber number) ∧
      commands = subpaths.flatMap Subpath.commands

def IsCoordinate (K : Type) [Scalar K] (number : Text) : Prop :=
  ∃ value : K, number = Scalar.coordinate value

def IsFiniteCoordinate (number : Text) : Prop :=
  IsCoordinate Float number ∧ ∃ decimal : Decimal, number = decimal.text

def InGrammar (path : Text) : Prop :=
  ∃ commands, Drawn IsFiniteCoordinate commands ∧ path = Command.spell commands

def IsFinite (path : Text) : Prop := ∀ word ∈ Text.pieces ' ' path, word ∉ Layout.words

instance (path : Text) : Decidable (IsFinite path) :=
    inferInstanceAs (Decidable (∀ _ ∈ _, _))

/-! ## Rows of subpaths -/

section

variable {IsNumber Other : Text → Prop} {commands more : List Command}

theorem drawn_nil : Drawn IsNumber [] := ⟨[], by simp, rfl⟩

theorem Drawn.append (first : Drawn IsNumber commands) (second : Drawn IsNumber more) :
    Drawn IsNumber (commands ++ more) := by
  rcases first with ⟨subpaths, numbers, rfl⟩
  rcases second with ⟨others, otherNumbers, rfl⟩
  refine ⟨subpaths ++ others, ?_, by simp⟩
  intro subpath member
  rcases List.mem_append.mp member with isFirst | isSecond
  · exact numbers subpath isFirst
  · exact otherNumbers subpath isSecond

theorem drawn_flatMap {α : Type} (items : List α) (spelled : α → List Command)
    (drawn : ∀ item ∈ items, Drawn IsNumber (spelled item)) :
    Drawn IsNumber (items.flatMap spelled) := by
  induction items with
  | nil => exact drawn_nil
  | cons item rest induction =>
      have others := induction fun other member => drawn other (by simp [member])
      exact (drawn item (by simp)).append others

/-- The numbers may be looked up among the words. -/
theorem Drawn.imp (drawn : Drawn IsNumber commands)
    (implies : ∀ number ∈ commands.flatMap Command.words,
      IsNumber number → Other number) :
    Drawn Other commands := by
  rcases drawn with ⟨subpaths, numbers, rfl⟩
  refine ⟨subpaths, ?_, rfl⟩
  intro subpath member number isNumber
  refine implies number ?_ (numbers subpath member number isNumber)
  refine List.mem_flatMap.mpr ?_
  rw [Subpath.numbers] at isNumber
  rcases List.mem_append.mp isNumber with start | later
  · refine ⟨⟨'M', [subpath.x, subpath.y]⟩, List.mem_flatMap.mpr ⟨subpath, member, ?_⟩, ?_⟩
    · simp [Subpath.commands]
    · exact List.mem_cons_of_mem _ start
  · rcases List.mem_flatMap.mp later with ⟨segment, isSegment, isOperand⟩
    refine ⟨segment.command, List.mem_flatMap.mpr ⟨subpath, member, ?_⟩, ?_⟩
    · have among :
          segment.command ∈ (subpath.first :: subpath.rest).map Segment.command :=
        List.mem_map_of_mem isSegment
      exact List.mem_cons_of_mem _ (List.mem_append_left _ among)
    · cases segment with
      | line x y => exact List.mem_cons_of_mem _ isOperand
      | arc radius large sweep x y =>
          simp only [Segment.numbers, List.mem_cons, List.not_mem_nil,
            or_false] at isOperand
          rcases isOperand with rfl | rfl | rfl <;> simp [Segment.command, Command.words]

theorem flag_mem (set : Bool) : flag set ∈ [['0'], ['1']] := by cases set <;> simp [flag]

/-- Drawn letters belong to the grammar and are absolute. -/
theorem letter_drawn {c : Char} (member : c ∈ ['M', 'L', 'A', 'Z']) :
    isLetter c = true ∧ c ≠ ' ' ∧ c.isLower = false := by
  simp only [List.mem_cons, List.not_mem_nil, or_false] at member
  rcases member with rfl | rfl | rfl | rfl <;> decide

/-- Operands are numbers or flags. -/
theorem Drawn.of_mem (drawn : Drawn IsNumber commands) {command : Command}
    (member : command ∈ commands) :
    command.letter ∈ ['M', 'L', 'A', 'Z'] ∧
      ∀ operand ∈ command.operands, IsNumber operand ∨ operand ∈ [['0'], ['1']] := by
  rcases drawn with ⟨subpaths, numbers, rfl⟩
  rcases List.mem_flatMap.mp member with ⟨subpath, isSubpath, isCommand⟩
  have all : ∀ number ∈ subpath.numbers, IsNumber number := numbers subpath isSubpath
  simp only [Subpath.commands, List.cons_append, List.mem_cons, List.mem_append,
    List.mem_map, List.not_mem_nil, or_false] at isCommand
  rcases isCommand with rfl | ⟨segment, isSegment, rfl⟩ | rfl
  · exact ⟨by simp, fun operand isOperand =>
      .inl (all operand (List.mem_append_left _ isOperand))⟩
  · have ofSegment : ∀ number ∈ segment.numbers, IsNumber number := by
      intro number isNumber
      have among : segment ∈ subpath.first :: subpath.rest := by simpa using isSegment
      exact all number
        (List.mem_append_right _ (List.mem_flatMap.mpr ⟨segment, among, isNumber⟩))
    cases segment with
    | line x y => exact ⟨by simp [Segment.command], fun operand isOperand =>
        .inl (ofSegment operand isOperand)⟩
    | arc radius large sweep x y =>
        refine ⟨by simp [Segment.command], ?_⟩
        intro operand isOperand
        simp only [Segment.command, List.mem_cons, List.not_mem_nil,
          or_false] at isOperand
        rcases isOperand with rfl | rfl | rfl | rfl | rfl | rfl | rfl
        · exact .inl (ofSegment _ (by simp [Segment.numbers]))
        · exact .inl (ofSegment _ (by simp [Segment.numbers]))
        · exact .inr (by simp)
        · exact .inr (flag_mem large)
        · exact .inr (flag_mem sweep)
        · exact .inl (ofSegment _ (by simp [Segment.numbers]))
        · exact .inl (ofSegment _ (by simp [Segment.numbers]))
  · exact ⟨by simp, by simp⟩

theorem Drawn.solid (drawn : Drawn IsNumber commands)
    (solid : ∀ number, IsNumber number → Solid number) :
    ∀ command ∈ commands, command.Solid := by
  intro command member
  rcases drawn.of_mem member with ⟨letter, operands⟩
  have flags : ∀ flag ∈ [['0'], ['1']], Digits.isRun flag = true := by decide
  refine ⟨(letter_drawn letter).1, fun operand isOperand => ?_⟩
  rcases operands operand isOperand with number | isFlag
  · exact solid operand number
  · exact solid_run (flags operand isFlag)

end

/-! ## Coordinates -/

theorem IsFiniteCoordinate.solid {number : Text} (finite : IsFiniteCoordinate number) :
    Solid number := by
  rcases finite with ⟨-, decimal, rfl⟩
  exact solid_decimal decimal

theorem IsCoordinate.finite {number : Text} (coordinate : IsCoordinate Float number)
    (notWord : number ∉ Layout.words) : IsFiniteCoordinate number := by
  refine ⟨coordinate, ?_⟩
  rcases coordinate with ⟨value, rfl⟩
  rcases Layout.plain_eq (Scalar.roundPlaces 6 value) with word | decimal
  · exact absurd word notWord
  · exact decimal

theorem blank_not_mem_of_solid {operand : Text} (solid : Solid operand) :
    ' ' ∉ operand := by
  have apart : ∀ opened text : Text, Continues opened text → ' ' ∉ text := by
    intro opened text
    induction text generalizing opened with
    | nil => simp
    | cons c rest induction =>
        intro continues member
        rcases List.mem_cons.mp member with rfl | later
        · exact absurd continues.1.2.1 (by decide)
        · exact induction _ continues.2 later
  exact apart [] operand solid.2

theorem blank_not_mem_of_isCoordinate {number : Text}
    (coordinate : IsCoordinate Float number) :
    ' ' ∉ number := by
  have words : ∀ word ∈ Layout.words, ' ' ∉ word := by decide
  by_cases word : number ∈ Layout.words
  · exact words number word
  · exact blank_not_mem_of_solid (coordinate.finite word).solid

/-- The pieces of drawn text are the words that it was spelled with. -/
theorem Drawn.pieces {commands : List Command}
    (drawn : Drawn (IsCoordinate Float) commands) :
    ∀ word ∈ commands.flatMap Command.words,
      word ∈ Text.pieces ' ' (Command.spell commands) := by
  have marks : ∀ mark ∈ [['0'], ['1']], ' ' ∉ mark := by decide
  have solid : ∀ word ∈ commands.flatMap Command.words, ' ' ∉ word := by
    intro word member
    rcases List.mem_flatMap.mp member with ⟨command, isCommand, isWord⟩
    rcases drawn.of_mem isCommand with ⟨letter, operands⟩
    rcases List.mem_cons.mp isWord with rfl | isOperand
    · exact fun blank => (letter_drawn letter).2.1 (List.mem_singleton.mp blank).symm
    · rcases operands word isOperand with number | mark
      · exact blank_not_mem_of_isCoordinate number
      · exact marks word mark
  intro word member
  rw [Command.spell, Text.pieces_join (List.ne_nil_of_mem member) solid]
  exact member

/-- Drawn text without words for values that have no digits is finite throughout. -/
theorem Drawn.finite {commands : List Command}
    (drawn : Drawn (IsCoordinate Float) commands)
    (finite : IsFinite (Command.spell commands)) : Drawn IsFiniteCoordinate commands :=
  drawn.imp fun number member coordinate =>
    coordinate.finite (finite number (drawn.pieces number member))

/-! ## Mirrored paths -/

/-- A decimal is changed as a number. -/
theorem isCoordinate_mapNumber (change : Float → Float) {number : Text}
    (finite : IsFiniteCoordinate number) :
    IsCoordinate Float (mapNumber change number) := by
  rcases finite with ⟨-, decimal, rfl⟩
  have read : Scalar.read? decimal.text = some (Binary64.ofNumeral decimal.numeral) := by
    rw [Scalar.read?, decimal.read_text]
    rfl
  exact ⟨_, by rw [mapNumber, read]⟩

namespace Segment

def mirrored (axis : Float) : Segment → Segment
  | .line x y => .line (mapNumber (fun x : Float => axis + (axis - x)) x) y
  | .arc radius large sweep x y =>
      .arc radius large (!sweep) (mapNumber (fun x : Float => axis + (axis - x)) x) y

theorem command_mirrored (axis : Float) (segment : Segment) :
    mirrorCommand axis false segment.command = (segment.mirrored axis).command := by
  cases segment with
  | line x y => rfl
  | arc radius large sweep x y => cases sweep <;> rfl

end Segment

namespace Subpath

def mirrored (axis : Float) (subpath : Subpath) : Subpath :=
  ⟨mapNumber (fun x : Float => axis + (axis - x)) subpath.x, subpath.y,
    subpath.first.mirrored axis, subpath.rest.map (Segment.mirrored axis)⟩

theorem commands_mirrored (axis : Float) (subpath : Subpath) :
    subpath.commands.map (mirrorCommand axis false) =
      (subpath.mirrored axis).commands := by
  have segments : ∀ segments : List Segment,
      (segments.map Segment.command).map (mirrorCommand axis false) =
        (segments.map (Segment.mirrored axis)).map Segment.command := by
    intro segments
    rw [List.map_map, List.map_map]
    apply List.map_congr_left
    intro segment _
    exact segment.command_mirrored axis
  simp only [commands, List.map_append, List.map_cons, List.map_nil,
    Segment.command_mirrored, segments, mirrored]
  rfl

end Subpath

/-- If no command is relative, the first one is mirrored as any other. -/
theorem mirrorCommands_eq_map {K : Type} [Scalar K] {commands : List Command} (axis : K)
    (absolute : ∀ command ∈ commands, command.letter.isLower = false) :
    mirrorCommands axis commands = commands.map (mirrorCommand axis false) := by
  cases commands with
  | nil => rfl
  | cons first rest =>
      have same : mirrorCommand axis true first = mirrorCommand axis false first := by
        simp only [mirrorCommand, mirrorOperand, absolute first (by simp), Bool.false_and]
      rw [mirrorCommands, same, List.map_cons]

theorem Drawn.mirrored {commands : List Command} (axis : Float)
    (drawn : Drawn IsFiniteCoordinate commands) :
    Drawn (IsCoordinate Float) (mirrorCommands axis commands) := by
  rw [mirrorCommands_eq_map axis fun command member =>
    (letter_drawn (drawn.of_mem member).1).2.2]
  rcases drawn with ⟨subpaths, numbers, rfl⟩
  refine ⟨subpaths.map (Subpath.mirrored axis), ?_, ?_⟩
  · intro subpath member number isNumber
    rcases List.mem_map.mp member with ⟨original, isOriginal, rfl⟩
    have all : ∀ number ∈ original.numbers, IsFiniteCoordinate number :=
      numbers original isOriginal
    have segment : ∀ segment ∈ original.first :: original.rest,
        ∀ number ∈ (segment.mirrored axis).numbers, IsCoordinate Float number := by
      intro segment among number isNumber
      have own : ∀ number ∈ segment.numbers, IsFiniteCoordinate number :=
          fun number own =>
        all number (List.mem_append_right _ (List.mem_flatMap.mpr ⟨segment, among, own⟩))
      cases segment with
      | line x y =>
          simp only [Segment.mirrored, Segment.numbers, List.mem_cons, List.not_mem_nil,
            or_false] at isNumber
          rcases isNumber with rfl | rfl
          · exact isCoordinate_mapNumber _ (own x (by simp [Segment.numbers]))
          · exact (own _ (by simp [Segment.numbers])).1
      | arc radius large sweep x y =>
          simp only [Segment.mirrored, Segment.numbers, List.mem_cons, List.not_mem_nil,
            or_false] at isNumber
          rcases isNumber with rfl | rfl | rfl
          · exact (own _ (by simp [Segment.numbers])).1
          · exact isCoordinate_mapNumber _ (own x (by simp [Segment.numbers]))
          · exact (own _ (by simp [Segment.numbers])).1
    simp only [Subpath.mirrored, Subpath.numbers, List.mem_append, List.mem_cons,
      List.not_mem_nil, or_false, List.mem_flatMap] at isNumber
    rcases isNumber with (rfl | rfl) | ⟨turned, isTurned, own⟩
    · exact isCoordinate_mapNumber _ (all original.x (by simp [Subpath.numbers]))
    · exact (all _ (by simp [Subpath.numbers])).1
    · rcases isTurned with rfl | later
      · exact segment original.first (by simp) number own
      · rcases List.mem_map.mp later with ⟨piece, isPiece, rfl⟩
        exact segment piece (by simp [isPiece]) number own
  · rw [List.map_flatMap, List.flatMap_map]
    apply List.flatMap_congr
    intro subpath _
    exact subpath.commands_mirrored axis

theorem exists_mirror_eq {commands : List Command}
    (drawn : Drawn IsFiniteCoordinate commands) (box : Box Float) :
    ∃ others, Drawn (IsCoordinate Float) others ∧
      mirror (Command.spell commands) box = Command.spell others := by
  unfold mirror
  split
  · exact ⟨commands, drawn.imp fun _ _ number => number.1, rfl⟩
  · have solid := drawn.solid fun _ number => number.solid
    rw [read_spell solid]
    exact ⟨_, drawn.mirrored box.centerX, rfl⟩

end Photoplot.Path
