import Photoplot.Proofs.Clearance.Kernel
import Photoplot.Proofs.Plot.Objects

/-! # Inverted layers

Asking for the clearance of a layer never loses it. The path of the result is empty
exactly if that of the copper is: either the copper stands in for the clearance, or
shapes are left of a plate that copper was cut out of. -/

namespace Photoplot

namespace Path

/-- Commands are read from a path that begins with a letter. -/
theorem read_cons_ne_nil {c : Char} (letter : isLetter c = true) (rest : Text) :
    read (c :: rest) ≠ [] := by
  simp [read, tokens, letter, closed, gather]

theorem exists_spell_cons (command : Command) (rest : List Command) :
    ∃ text, Command.spell (command :: rest) = command.letter :: text := by
  rw [Command.spell, List.flatMap_cons, Command.words, List.cons_append]
  cases command.operands ++ rest.flatMap Command.words with
  | nil => exact ⟨[], rfl⟩
  | cons word others => exact ⟨_, List.intercalate_cons_cons⟩

theorem spell_eq_nil_iff {commands : List Command} :
    Command.spell commands = [] ↔ commands = [] := by
  cases commands with
  | nil => simp [Command.spell, Text.join]
  | cons command rest =>
      rcases exists_spell_cons command rest with ⟨text, spelled⟩
      simp [spelled]

/-- A mirror neither empties a path nor fills one. -/
theorem mirror_spell_eq_nil_iff {K : Type} [Scalar K] {commands : List Command}
    (letters : ∀ command ∈ commands, isLetter command.letter = true) (box : Box K) :
    mirror (Command.spell commands) box = [] ↔ commands = [] := by
  unfold mirror
  split
  · exact spell_eq_nil_iff
  · rw [spell_eq_nil_iff]
    cases commands with
    | nil => exact ⟨fun _ => rfl, fun _ => rfl⟩
    | cons command rest =>
        rcases exists_spell_cons command rest with ⟨text, spelled⟩
        have found := read_cons_ne_nil (letters command (by simp)) text
        rw [spelled]
        generalize read (command.letter :: text) = commands at found
        cases commands with
        | nil => exact absurd rfl found
        | cons first others => simp [mirrorCommands]

end Path

namespace Geometry

section

variable {K : Type} [PlaneScalar K]

/-- The path of a mirrored layer is empty if and only if that of the layer is. -/
theorem IsDrawn.mirrored_path_eq_nil_iff {geometry : Geometry K}
    (drawn : geometry.IsDrawn) :
    geometry.mirrored.path = [] ↔ geometry.path = [] := by
  rcases drawn with ⟨commands, drawn, spelled⟩
  have letters : ∀ command ∈ commands, Path.isLetter command.letter = true :=
    fun command member => (Path.letter_drawn (drawn.of_mem member).1).1
  simp only [mirrored, spelled]
  rw [Path.mirror_spell_eq_nil_iff letters, Path.spell_eq_nil_iff]

/-- The shapes of a clearance spell something. -/
theorem ofShapes_ne_nil {shapes : List (Shape K)} (some : shapes ≠ [])
    (filled : ∀ shape ∈ shapes, shape ≠ [])
    (enough : ∀ shape ∈ shapes, ∀ contour ∈ shape, 3 ≤ contour.length) :
    Path.ofShapes shapes ≠ [] := by
  intro blank
  have none := Path.spell_eq_nil_iff.mp blank
  rcases List.exists_mem_of_ne_nil shapes some with ⟨shape, isShape⟩
  rcases List.exists_mem_of_ne_nil shape (filled shape isShape) with ⟨contour, isContour⟩
  have own := List.flatMap_eq_nil_iff.mp none contour
    (List.mem_flatten.mpr ⟨shape, isShape, isContour⟩)
  match contour, enough shape isShape contour isContour with
  | first :: _, _ => simp [Path.contourCommands] at own

theorem plot_path_eq_nil_iff (commands : List (Command K)) :
    (Machine.plot commands).value.path = [] ↔
      (Machine.plot commands).value.primitives = [] := by
  have some := (Machine.closedRow_plot commands).commands_ne_nil
  rw [Plot.path, Path.ofPrimitives_eq_spell some, Path.spell_eq_nil_iff]
  constructor
  · intro none
    by_contra filled
    rcases List.exists_mem_of_ne_nil _ filled with ⟨primitive, member⟩
    exact some primitive member (List.flatMap_eq_nil_iff.mp none primitive member)
  · intro none
    rw [none]
    rfl

end

/-! ## Inverted and not -/

/-- Before it is mirrored, the inverted layer is the copper, or there is copper and the
layer shows the shapes of a clearance. -/
theorem invert_cases (cutter : Cutter Float) (text : Text) (options : Options Float)
    (plate : Option (Plate Float)) :
    let copper := (ofLayer cutter text ⟨false, options.margin, false⟩ plate).value
    let inverted := (ofLayer cutter text ⟨true, options.margin, false⟩ plate).value
    copper.inverted = false ∧
      (inverted = copper ∨
        copper.path ≠ [] ∧ ∃ shapes, Path.ofShapes shapes ≠ [] ∧
          inverted = ⟨Path.ofShapes shapes, Box.ofShapes shapes, true⟩) := by
  simp only [ofLayer, Noted.value_bind]
  cases outcome : (Layer.plot (K := Float) text).value with
  | error error => exact ⟨rfl, .inl rfl⟩
  | ok plot =>
      refine ⟨rfl, ?_⟩
      have isPlot := plot_eq text outcome
      simp only [Bool.false_eq_true, if_false, if_true, ofClearance, Noted.value_bind]
      split
      · rename_i inverted
        right
        rcases Clearance.compute_cases cutter
            ⟨plot.shapes, plate.getD (.bounds plot.box), options.margin⟩ with
          ⟨-, same⟩ | ⟨given, ⟨usable, -, some⟩, cleared⟩
        · rw [same] at inverted
          cases inverted
        · have made := Clearance.cleared_simplify (by decide +kernel) some
          refine ⟨?_, Clearance.simplify given,
            ofShapes_ne_nil some made.shape_ne_nil made.enough, ?_⟩
          · rcases usable.traced with ⟨trace, isTrace, -⟩
            change plot.path ≠ []
            rw [isPlot] at isTrace ⊢
            rw [Ne, plot_path_eq_nil_iff]
            intro blank
            exact List.ne_nil_of_mem isTrace ((Machine.paired_plot _).mp blank)
          · rw [cleared]
            rfl
      · exact .inl rfl

/-- Inverting never loses a layer: it is empty if and only if the copper is, it is the
copper unless it says otherwise, and its box is the least one for the shapes that its
path spells. The primitives of a plot, which the copper is printed from, and its
shapes, which the clearance is computed from, are empty together. -/
theorem ofLayer_invert (cutter : Cutter Float) (text : Text) (options : Options Float)
    (plate : Option (Plate Float)) :
    let copper := (ofLayer cutter text { options with invert := false } plate).value
    let inverted := (ofLayer cutter text { options with invert := true } plate).value
    (inverted.path = [] ↔ copper.path = []) ∧
      (inverted.inverted = false → inverted.path = copper.path ∧
        inverted.box = copper.box) ∧
      (inverted.inverted = true → ∃ shapes, inverted.box.IsLeast shapes ∧
        inverted.path = if options.mirror
          then Path.mirror (Path.ofShapes shapes) inverted.box
          else Path.ofShapes shapes) ∧
      ∀ commands : List (Command Float), (Machine.plot commands).value.primitives = [] ↔
        (Machine.plot commands).value.shapes = [] := by
  have shown (invert : Bool) :
      (ofLayer cutter text { options with invert } plate).value =
        if options.mirror then
          (ofLayer cutter text ⟨invert, options.margin, false⟩ plate).value.mirrored
        else (ofLayer cutter text ⟨invert, options.margin, false⟩ plate).value :=
    ofLayer_eq cutter text { options with invert } plate
  have drawn (invert : Bool) :
      (ofLayer cutter text ⟨invert, options.margin, false⟩ plate).value.IsDrawn :=
    isDrawn_direct cutter text { options with invert } plate
  have copperDrawn := drawn false
  have invertedDrawn := drawn true
  rw [shown, shown]
  rcases invert_cases cutter text options plate with
      ⟨direct, same | ⟨some, shapes, filled, cleared⟩⟩
  · rw [same]
    refine ⟨Iff.rfl, fun _ => ⟨rfl, rfl⟩, fun inverted => ?_, Machine.paired_plot⟩
    cases mirror : options.mirror <;> simp [mirror, mirrored, direct] at inverted
  · rw [cleared] at invertedDrawn ⊢
    cases mirror : options.mirror with
    | false =>
        refine ⟨?_, fun direct => ?_, fun _ => ?_, Machine.paired_plot⟩
        · simp [filled, some]
        · cases direct
        · exact ⟨shapes, Box.isLeast_ofShapes shapes, rfl⟩
    | true =>
        refine ⟨?_, fun direct => ?_, fun _ => ?_, Machine.paired_plot⟩
        · simp only [if_true]
          rw [invertedDrawn.mirrored_path_eq_nil_iff,
            copperDrawn.mirrored_path_eq_nil_iff]
          simp [filled, some]
        · cases direct
        · exact ⟨shapes, Box.isLeast_ofShapes shapes, rfl⟩

end Geometry

end Photoplot
