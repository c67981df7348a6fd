import Photoplot.Proofs.Binary64.Range
import Photoplot.Proofs.Path.Steps
import Photoplot.Proofs.Plot.Subpaths

/-! # Words for values without digits

The text of a path has a word such as `inf` in it exactly if a number of a step leaves no
room for the six places that it is rounded to. -/

namespace Photoplot

/-! ## Coordinates -/

/-- A decimal is read as a number with digits, the words are not. -/
theorem Decimal.text_not_mem_words (decimal : Decimal) : decimal.text ∉ Layout.words := by
  have undigested : ∀ word ∈ Layout.words, ∀ negative digits exponent,
      Numeral.read word ≠ some (.decimal negative digits exponent) := by
    have read : Layout.words.map Numeral.read =
        [some (.infinite true), some (.infinite false), some .undefined] := by decide
    intro word member negative digits exponent isRead
    have among : Numeral.read word ∈ Layout.words.map Numeral.read :=
      List.mem_map_of_mem member
    rw [read, isRead] at among
    simp at among
  exact fun member => undigested _ member _ _ _ decimal.read_text

theorem Layout.plain_mem_words_iff (x : Float) :
    Layout.plain x ∈ Layout.words ↔ ¬x.isFinite = true := by
  rw [Binary64.isFinite_iff_binary]
  unfold Layout.plain
  split
  · rename_i none
    rw [none]
    refine iff_of_true ?_ (by simp)
    split
    · simp [words]
    · split <;> simp [words]
  · rename_i number isNumber
    rw [isNumber]
    refine iff_of_false ?_ (by simp)
    split
    · exact Decimal.text_not_mem_words ⟨number.negative, ['0'], [], rfl, rfl⟩
    · rw [← Decimal.text_ofPositional _ _ (Digits.isRun_ofNat _)]
      exact Decimal.text_not_mem_words _

namespace Path

theorem coordinate_mem_words_iff (x : Float) :
    Scalar.coordinate x ∈ Layout.words ↔ ¬Binary64.HasRoom x := by
  rw [← Binary64.isFinite_roundPlaces_iff]
  exact Layout.plain_mem_words_iff _

/-! ## Steps -/

def marks : List Text := [['M'], ['L'], ['A'], ['Z'], ['0'], ['1']]

namespace Step

theorem coordinate_mem_words {K : Type} [Scalar K] {step : Step K} {number : K}
    (member : number ∈ step.numbers) : Scalar.coordinate number ∈ step.command.words := by
  cases step with
  | close => cases member
  | _ =>
      simp only [numbers, List.mem_cons, List.not_mem_nil, or_false] at member
      rcases member with rfl | rfl | rfl <;>
        simp [command, Command.words, pair, arcCommand]

theorem coordinate_or_mark {K : Type} [Scalar K] {step : Step K} {word : Text}
    (member : word ∈ step.command.words) :
    (∃ number ∈ step.numbers, word = Scalar.coordinate number) ∨ word ∈ marks := by
  cases step with
  | move point =>
      simp only [command, Command.words, pair, List.mem_cons, List.not_mem_nil,
        or_false] at member
      rcases member with rfl | rfl | rfl <;> simp [numbers, marks]
  | line point =>
      simp only [command, Command.words, pair, List.mem_cons, List.not_mem_nil,
        or_false] at member
      rcases member with rfl | rfl | rfl <;> simp [numbers, marks]
  | arc radius large sweep finish =>
      have flags : ∀ set, flag set ∈ marks := by decide
      simp only [command, arcCommand, Command.words, pair, List.cons_append,
        List.nil_append, List.mem_cons, List.not_mem_nil,
        or_false] at member
      rcases member with rfl | rfl | rfl | rfl | rfl | rfl | rfl | rfl
      case inr.inr.inr.inr.inl => exact .inr (flags large)
      case inr.inr.inr.inr.inr.inl => exact .inr (flags sweep)
      all_goals simp [numbers, marks]
  | close =>
      rcases List.mem_singleton.mp member with rfl
      exact .inr (by decide : ['Z'] ∈ marks)

theorem blank_not_mem_words {step : Step Float} {word : Text}
    (member : word ∈ step.command.words) : ' ' ∉ word := by
  rcases coordinate_or_mark member with ⟨number, -, rfl⟩ | isMark
  · exact blank_not_mem_of_isCoordinate ⟨number, rfl⟩
  · exact (by decide : ∀ mark ∈ marks, ' ' ∉ mark) word isMark

/-- The words of a step are finite if its numbers leave room. -/
theorem forall_words_iff (step : Step Float) :
    (∀ word ∈ step.command.words, word ∉ Layout.words) ↔
      ∀ number ∈ step.numbers, Binary64.HasRoom number := by
  constructor
  · intro finite number member
    exact not_not.mp fun none =>
      finite _ (coordinate_mem_words member) ((coordinate_mem_words_iff number).mpr none)
  · intro room word member
    rcases coordinate_or_mark member with ⟨number, isNumber, rfl⟩ | isMark
    · rw [coordinate_mem_words_iff, not_not]
      exact room number isNumber
    · exact (by decide : ∀ mark ∈ marks, mark ∉ Layout.words) word isMark

end Step

/-- The text of steps is finite exactly if all of their numbers leave room. -/
theorem isFinite_spell_iff (steps : List (Step Float)) :
    IsFinite (Command.spell (steps.map Step.command)) ↔
      ∀ step ∈ steps, ∀ number ∈ step.numbers, Binary64.HasRoom number := by
  cases steps with
  | nil => exact iff_of_true (by decide) (by simp)
  | cons first rest =>
      have pieces :=
          @Text.pieces_join (((first :: rest).map Step.command).flatMap Command.words)
        ' ' (by simp [Command.words]) (by
          intro word member
          simp only [List.mem_flatMap, List.mem_map] at member
          obtain ⟨_, ⟨step, -, rfl⟩, isWord⟩ := member
          exact Step.blank_not_mem_words isWord)
      rw [IsFinite, Command.spell, pieces, List.forall_mem_flatMap, List.forall_mem_map]
      exact forall₂_congr fun step _ => step.forall_words_iff

end Path

/-! ## Plots -/

theorem Machine.isFinite_path_plot_iff (commands : List (Command Float)) :
    Path.IsFinite (plot commands).value.path ↔
      ∀ step ∈ (plot commands).value.primitives.flatMap Path.Primitive.steps,
        ∀ number ∈ step.numbers, Binary64.HasRoom number := by
  have spelled : (plot commands).value.primitives.flatMap Path.Primitive.commands =
      ((plot commands).value.primitives.flatMap Path.Primitive.steps).map
        Path.Step.command := by
    rw [List.map_flatMap]
    exact List.flatMap_congr fun primitive _ => primitive.commands_eq
  rw [← Path.isFinite_spell_iff, ← spelled, Plot.path,
    Path.ofPrimitives_eq_spell (closedRow_plot commands).commands_ne_nil]

end Photoplot
