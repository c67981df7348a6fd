import Photoplot.Proofs.Scalar.Counting
import Photoplot.Proofs.Source.Aperture

/-! # Well-formed commands

What reaches the plotter has been checked when it was read: codes of apertures do
not mean anything else, shapes have finite sizes and corners that can be counted,
and every operation has something to do. -/

namespace Photoplot

variable {K : Type} [Scalar K]

/-- A shape that can be drawn. The names of the other shapes never stand for a
macro. -/
def ApertureShape.WellFormed : ApertureShape K → Prop
  | .circle diameter => Scalar.isFinite diameter = true
  | .rectangle width height => Scalar.isFinite width = true ∧
      Scalar.isFinite height = true
  | .obround width height => Scalar.isFinite width = true ∧ Scalar.isFinite height = true
  | .polygon diameter vertices rotation =>
      Scalar.isFinite diameter = true ∧ (3 ≤ vertices ∧ vertices ≤ 12) ∧
        Scalar.isFinite rotation = true
  | .custom name values =>
      name ≠ [] ∧ name ∉ Parameter.ownNames ∧
        ∀ value ∈ values, Scalar.isFinite value = true

def Command.WellFormed : Command K → Prop
  | .defineAperture code shape => 10 ≤ code ∧ shape.WellFormed
  | .defineTemplate name _ => name ≠ []
  | .select code => 10 ≤ code
  | .operation fields action => action.isSome = true ∨ fields.isEmpty = false
  | _ => True

/-! ## Words -/

namespace Word

theorem Means.wellFormed {fields : List Field} (areRead : AreRead K fields)
    {commands : List (Command K)} (means : Means fields commands) :
    ∀ command ∈ commands, command.WellFormed := by
  cases means with
  | nothing => simp
  | repeated some noCode =>
      rw [List.forall_mem_singleton]
      exact .inr (isEmpty_coordinatesOf_eq_false areRead some noCode)
  | action last isCode => simp [Command.WellFormed]
  | select last isCode large alone =>
      rw [List.forall_mem_singleton]
      exact large

theorem modeCommand?_wellFormed (code : ℕ) :
    ∀ command ∈ (modeCommand? (K := K) code).toList, command.WellFormed := by
  unfold modeCommand?
  split <;> simp [Command.WellFormed]

theorem Body.wellFormed {text : Text} {commands : List (Command K)}
    (body : Body text commands) :
    ∀ command ∈ commands, command.WellFormed := by
  cases body with
  | ending isCode => split <;> simp [Command.WellFormed]
  | fields areRead means => exact means.wellFormed areRead

theorem Reads.wellFormed {word : Text} {commands : List (Command K)}
    (reads : Reads word commands) : ∀ command ∈ commands, command.WellFormed := by
  cases reads with
  | plain body => exact body.wellFormed
  | mode run small body =>
      rw [List.forall_mem_append]
      exact ⟨modeCommand?_wellFormed _, body.wellFormed⟩

end Word

/-! ## Parameters -/

namespace Parameter

theorem isFinite_of_areNumbers {pieces : List Text} {values : List K}
    (areNumbers : List.Forall₂ IsNumber pieces values) :
    ∀ value ∈ values, Scalar.isFinite value = true := by
  induction areNumbers with
  | nil => simp
  | cons isNumber _ induction => exact List.forall_mem_cons.mpr ⟨isNumber.2, induction⟩

theorem Spelled.isFinite {text name : Text} {values : List K}
    (spelled : Spelled text name values) :
    ∀ value ∈ values, Scalar.isFinite value = true := by
  cases spelled with
  | alone => simp
  | numbers _ numbers =>
      cases numbers with
      | nothing => simp
      | joined _ _ areNumbers => exact isFinite_of_areNumbers areNumbers

variable [Scalar.Counting K]

theorem IsShape.wellFormed {name : Text} {values : List K} {shape : ApertureShape K}
    (isShape : IsShape name values shape)
    (finite : ∀ value ∈ values, Scalar.isFinite value = true) : shape.WellFormed := by
  cases isShape with
  | circle => exact finite _ (by simp)
  | rectangle => exact ⟨finite _ (by simp), finite _ (by simp)⟩
  | obround => exact ⟨finite _ (by simp), finite _ (by simp)⟩
  | polygon diameter vertices rest few many =>
      refine ⟨finite _ (by simp), Scalar.Counting.ceilNat_between few many, ?_⟩
      cases rest with
      | nil => exact Scalar.Counting.isFinite_zero
      | cons rotation _ => exact finite rotation (by simp)
  | custom values some free => exact ⟨some, free, finite⟩

theorem Defines.wellFormed {content : Text} {command : Command K}
    (defines : Defines content command) : command.WellFormed := by
  cases defines with
  | intro _ large _ spelled _ isShape =>
      exact ⟨large, isShape.wellFormed spelled.isFinite⟩

theorem read_wellFormed {content : Text} {command : Command K}
    (isRead : read content = .ok (some command)) : command.WellFormed := by
  by_cases aperture : ['A', 'D'] <+: content
  · rcases aperture with ⟨rest, rfl⟩
    rcases (read_aperture_eq_ok_iff rest _).mp isRead with ⟨other, defines, same⟩
    rcases Option.some.inj same with rfl
    exact defines.wellFormed
  · have other : "AD".toList.isPrefixOf content = false := by
      rw [Bool.eq_false_iff, ne_eq, List.isPrefixOf_iff_prefix]
      exact aperture
    unfold read at isRead
    rw [other, if_neg Bool.false_ne_true] at isRead
    split_ifs at isRead
    · rcases map_eq_ok_iff.mp isRead with ⟨format, -, same⟩
      rcases Option.some.inj same with rfl
      trivial
    case neg => exact nomatch isRead
    all_goals
      rcases Option.some.inj (Except.ok.inj isRead) with rfl
      trivial

end Parameter

/-! ## Programs -/

namespace Program

/-- What a layer gives: the commands of its words and of its parameters, and the macros
that are defined by whole blocks. -/
inductive IsGiven : Command K → Prop
  | word {word : Text} {commands : List (Command K)} {command : Command K}
      (reads : Word.Reads word commands) (member : command ∈ commands) : IsGiven command
  | parameter {content : Text} {command : Command K}
      (isRead : Parameter.read content = .ok (some command)) : IsGiven command
  | template {name : Text} {body : List Text} (some : name ≠ []) :
      IsGiven (.defineTemplate name body)

theorem isGiven_of_mem_ofBlock {block : Block} {command : Command K}
    (member : command ∈ (ofBlock block).value) : IsGiven command := by
  cases block with
  | word word =>
      change command ∈ (ofWord word).value at member
      rw [Word.value_ofWord] at member
      cases outcome : (Word.read (K := K) word).value with
      | error _ => simp [outcome] at member
      | ok commands =>
          rw [outcome] at member
          exact .word ((Word.value_read_eq_ok_iff word commands).mp outcome) member
  | parameter contents =>
      unfold ofBlock at member
      simp only at member
      split at member
      · cases member
      · rename_i some
        rcases List.mem_singleton.mp member with rfl
        exact .template some
      · simp only [Noted.concat, List.mem_flatMap, List.mem_map] at member
        obtain ⟨_, ⟨content, -, rfl⟩, member⟩ := member
        unfold ofParameter at member
        split at member
        · rename_i outcome isRead
          rw [Noted.value_pure, Option.mem_toList] at member
          exact .parameter (member ▸ isRead)
        · cases member

theorem isGiven_of_mem {blocks : List Block} {command : Command K}
    (member : command ∈ (ofBlocks blocks).value) : IsGiven command := by
  simp only [ofBlocks, Noted.concat, List.mem_flatMap, List.mem_map] at member
  obtain ⟨_, ⟨block, -, rfl⟩, member⟩ := member
  exact isGiven_of_mem_ofBlock member

variable [Scalar.Counting K]

theorem ofBlocks_wellFormed (blocks : List Block) :
    ∀ command ∈ (ofBlocks (K := K) blocks).value, command.WellFormed := by
  intro command member
  cases isGiven_of_mem member with
  | word reads inside => exact reads.wellFormed command inside
  | parameter isRead => exact Parameter.read_wellFormed isRead
  | template some => exact some

/-- Whatever the blocks of a layer hold, the commands that come out of them are well
formed; and of the parameters that begin like a definition of an aperture, exactly
those that are spelled as one are read. -/
theorem wellFormed_and_defines_iff (blocks : List Block) :
    (∀ command ∈ (ofBlocks (K := K) blocks).value, command.WellFormed) ∧
      ∀ (rest : Text) (outcome : Option (Command K)),
        Parameter.read ('A' :: 'D' :: rest) = .ok outcome ↔
          ∃ command,
            Parameter.Defines ('A' :: 'D' :: rest) command ∧ some command = outcome :=
  ⟨ofBlocks_wellFormed blocks, Parameter.read_aperture_eq_ok_iff⟩

/-- A hexagon with a blank in front of a number, and a word that selects it. -/
theorem wellFormed_and_defines_iff_hexagon :
    let blocks : List Block :=
        [.parameter ["ADD10P,1.5X 6".toList], .word "G54D10".toList]
    let hexagon : Command Float := .defineAperture 10 (.polygon 1.5 6 0.0)
    (ofBlocks blocks).value = [hexagon, .select 10] ∧ hexagon.WellFormed ∧
      Parameter.Defines "ADD10P,1.5X 6".toList hexagon ∧
      ¬∃ command : Command Float, Parameter.Defines "ADD10P,1.5X13".toList command := by
  intro blocks hexagon
  have value : (ofBlocks blocks).value = [hexagon, .select 10] := by decide +kernel
  have facts := wellFormed_and_defines_iff (K := Float) blocks
  have spelled := (facts.2 "D10P,1.5X 6".toList (some hexagon)).mp (by decide +kernel)
  refine ⟨value, facts.1 hexagon (by simp [value]), ?_, ?_⟩
  · rcases spelled with ⟨command, defines, same⟩
    rcases Option.some.inj same with rfl
    exact defines
  · rintro ⟨command, defines⟩
    have accepted :=
        (facts.2 "D10P,1.5X13".toList (some command)).mpr ⟨command, defines, rfl⟩
    have refused : Parameter.read (K := Float) "ADD10P,1.5X13".toList =
        .error (.vertexCount ['1', '3']) := by
      decide +kernel
    exact nomatch refused.symm.trans accepted

/-- An aperture macro may be defined under the name of another shape. No aperture
can be made of it then. -/
theorem not_forall_template_name_free :
    ¬∀ (blocks : List Block) (name : Text) (body : List Text),
      .defineTemplate name body ∈ (ofBlocks (K := Float) blocks).value →
        name ∉ Parameter.ownNames := by
  intro free
  have member : .defineTemplate ['C'] ["1,1,1,0,0".toList] ∈
      (ofBlocks (K := Float) [.parameter ["AMC".toList, "1,1,1,0,0".toList]]).value := by
    decide +kernel
  exact free _ _ _ member (by decide)

end Program

end Photoplot
