import Photoplot.Proofs.Source.Block
import Photoplot.Proofs.Source.Word

/-! # The grammar of aperture definitions

A definition is spelled with a code from ten on, the name of a shape and, after a
comma, the numbers of that shape. Reading accepts exactly these. -/

namespace Photoplot

theorem mapM_eq_ok_iff {ε α β : Type} {read : α → Except ε β} {items : List α}
    {values : List β} :
    items.mapM read = .ok values ↔
      List.Forall₂ (fun item value => read item = .ok value) items values := by
  induction items generalizing values with
  | nil => cases values <;> simp [pure, Except.pure]
  | cons item items induction =>
      rw [List.mapM_cons]
      refine bind_eq_ok_iff.trans ?_
      rw [List.forall₂_cons_left_iff]
      constructor
      · rintro ⟨value, isRead, rest⟩
        rcases bind_eq_ok_iff.mp rest with ⟨others, areRead, joined⟩
        rcases Except.ok.inj joined with rfl
        exact ⟨value, others, isRead, induction.mp areRead, rfl⟩
      · rintro ⟨value, others, isRead, areRead, rfl⟩
        exact ⟨value, isRead, bind_eq_ok_iff.mpr ⟨others, induction.mpr areRead, rfl⟩⟩

namespace Text

theorem join_pieces (separator : Char) (text : Text) :
    join [separator] (pieces separator text) = text := by
  rw [pieces_eq_splitOn]
  exact List.intercalate_splitOn separator

theorem pieces_ne_nil (separator : Char) (text : Text) : pieces separator text ≠ [] := by
  rw [pieces_eq_splitOn]
  exact List.splitOn_ne_nil separator text

theorem not_mem_of_mem_pieces {separator : Char} {text : Text} :
    ∀ piece ∈ pieces separator text, separator ∉ piece := by
  induction text with
  | nil => simp [pieces]
  | cons c rest induction =>
      rw [pieces]
      split
      · simpa using induction
      · rename_i other
        split
        · simpa using Ne.symm other
        · rename_i first others cut
          rw [cut] at induction
          rw [List.forall_mem_cons] at induction ⊢
          exact ⟨List.not_mem_cons_of_ne_of_not_mem (Ne.symm other) induction.1,
            induction.2⟩

theorem cutAt_append {separator : Char} {first : Text} (absent : separator ∉ first)
    (second : Text) :
    cutAt separator (first ++ separator :: second) = some (first, second) := by
  have before : ∀ c ∈ first, (c != separator) = true := by
    intro c member
    simp only [bne_iff_ne]
    rintro rfl
    exact absent member
  simp [cutAt, List.dropWhile_append_of_pos before, List.takeWhile_append_of_pos before]

theorem cutAt_of_not_mem {separator : Char} {text : Text} (absent : separator ∉ text) :
    cutAt separator text = none := by
  have all : text.dropWhile (· != separator) = [] := by
    simp only [List.dropWhile_eq_nil_iff, bne_iff_ne]
    rintro c member rfl
    exact absent member
  rw [cutAt, all]

end Text

namespace Parameter

variable {K : Type} [Scalar K]

/-! ## Numbers -/

def IsNumber (text : Text) (value : K) : Prop :=
  Scalar.read? text.trim = some value ∧ Scalar.isFinite value = true

inductive Numbers : Text → List K → Prop
  | nothing : Numbers [] []
  | joined {pieces : List Text} {values : List K} (some : pieces ≠ [])
      (solid : ∀ piece ∈ pieces, 'X' ∉ piece)
      (areNumbers : List.Forall₂ IsNumber pieces values) :
      Numbers (Text.join ['X'] pieces) values

theorem readParameter_eq_ok_iff {text : Text} {value : K} :
    readParameter text = .ok value ↔ IsNumber text value := by
  unfold readParameter IsNumber
  split
  · rename_i number read
    split
    · rename_i finite
      rw [Except.ok.injEq, read, Option.some.injEq]
      exact ⟨fun same => ⟨same, same ▸ finite⟩, fun isNumber => isNumber.1⟩
    · rename_i infinite
      rw [read, Option.some.injEq]
      refine ⟨fun refused => (nomatch refused), ?_⟩
      rintro ⟨rfl, finite⟩
      exact absurd finite infinite
  · rename_i none
    simp [none]

theorem not_isNumber_nil (value : K) : ¬IsNumber [] value :=
  fun isNumber => nomatch isNumber.1

theorem readParameters_eq_ok_iff {text : Text} {values : List K} :
    readParameters text = .ok values ↔ Numbers text values := by
  unfold readParameters
  constructor
  · intro read
    split at read
    · rename_i empty
      rw [List.isEmpty_iff.mp empty, ← Except.ok.inj read]
      exact .nothing
    · rw [mapM_eq_ok_iff] at read
      have areNumbers := read.imp fun _ _ => readParameter_eq_ok_iff.mp
      rw [← Text.join_pieces 'X' text]
      exact .joined (Text.pieces_ne_nil 'X' text) Text.not_mem_of_mem_pieces areNumbers
  · intro numbers
    cases numbers with
    | nothing => rfl
    | @joined pieces _ some solid areNumbers =>
        have visible : (Text.join ['X'] pieces).isEmpty = false := by
          rw [Bool.eq_false_iff]
          intro empty
          have cut := Text.pieces_join some solid
          rw [List.isEmpty_iff.mp empty] at cut
          rw [← cut] at areNumbers
          cases areNumbers with
          | cons isNumber _ => exact not_isNumber_nil _ isNumber
        rw [visible, if_neg Bool.false_ne_true, Text.pieces_join some solid,
          mapM_eq_ok_iff]
        exact areNumbers.imp fun _ _ => readParameter_eq_ok_iff.mpr

/-! ## Shapes -/

def ownNames : List Text := [['C'], ['R'], ['O'], ['P']]

/-- The shape that a name makes of numbers. Numbers that are left over do not
count. -/
inductive IsShape : Text → List K → ApertureShape K → Prop
  | circle (diameter : K)
      (rest : List K) : IsShape ['C'] (diameter :: rest) (.circle diameter)
  | rectangle (width height : K) (rest : List K) :
      IsShape ['R'] (width :: height :: rest) (.rectangle width height)
  | obround (width height : K) (rest : List K) :
      IsShape ['O'] (width :: height :: rest) (.obround width height)
  | polygon (diameter vertices : K) (rest : List K) (few : 3.0 ≤ Scalar.round vertices)
      (many : Scalar.round vertices ≤ 12.0) :
      IsShape ['P'] (diameter :: vertices :: rest)
        (.polygon diameter (Scalar.ceilNat (Scalar.round vertices)) (rest.headD 0.0))
  | custom {name : Text} (values : List K) (some : name ≠ []) (free : name ∉ ownNames) :
      IsShape name values (.custom name values)

theorem shapeOf_eq_ok_iff {name : Text} {values : List K} {shape : ApertureShape K} :
    shapeOf name values = .ok shape ↔ IsShape name values shape := by
  constructor
  · intro read
    unfold shapeOf at read
    split at read
    case h_1 =>
      rw [← Except.ok.inj read]
      exact .circle _ _
    case h_3 =>
      rw [← Except.ok.inj read]
      exact .rectangle _ _ _
    case h_5 =>
      rw [← Except.ok.inj read]
      exact .obround _ _ _
    case h_7 =>
      simp only at read
      split at read
      · rename_i range
        rw [← Except.ok.inj read]
        exact .polygon _ _ _ range.1 range.2
      · exact nomatch read
    case h_10 circle rectangle obround polygon some _ _ _ _ =>
      rw [← Except.ok.inj read]
      refine .custom _ some ?_
      simp only [ownNames, List.mem_cons, List.not_mem_nil, or_false, not_or]
      exact ⟨circle, rectangle, obround, polygon⟩
    all_goals exact nomatch read
  · intro isShape
    cases isShape with
    | circle => rfl
    | rectangle => rfl
    | obround => rfl
    | polygon diameter vertices rest few many => simp [shapeOf, few, many]
    | custom values some free =>
        simp only [ownNames, List.mem_cons, List.not_mem_nil, or_false, not_or] at free
        unfold shapeOf
        split <;> first | rfl | simp_all

inductive Spelled : Text → Text → List K → Prop
  | alone {name : Text} (noComma : ',' ∉ name) : Spelled name name []
  | numbers {name text : Text} {values : List K} (noComma : ',' ∉ name)
      (numbers : Numbers text values) : Spelled (name ++ ',' :: text) name values

theorem readShape_eq_ok_iff {text : Text} {shape : ApertureShape K} :
    readShape text = .ok shape ↔
      ∃ name values, Spelled text name values ∧ IsShape name values shape := by
  constructor
  · intro read
    rcases bind_eq_ok_iff.mp read with ⟨values, areRead, isShape⟩
    rw [shapeOf_eq_ok_iff] at isShape
    by_cases comma : ',' ∈ text
    · rcases List.eq_append_cons_of_mem comma with ⟨name, written, rfl, noComma⟩
      rw [Text.cutAt_append noComma] at areRead isShape
      exact ⟨name, values, .numbers noComma (readParameters_eq_ok_iff.mp areRead),
        isShape⟩
    · rw [Text.cutAt_of_not_mem comma] at areRead isShape
      rcases Except.ok.inj areRead with rfl
      exact ⟨text, [], .alone comma, isShape⟩
  · rintro ⟨name, values, spelled, isShape⟩
    refine bind_eq_ok_iff.mpr ⟨values, ?_⟩
    rw [readParameters_eq_ok_iff, shapeOf_eq_ok_iff]
    cases spelled with
    | alone noComma =>
        rw [Text.cutAt_of_not_mem noComma]
        exact ⟨.nothing, isShape⟩
    | numbers noComma numbers =>
        rw [Text.cutAt_append noComma]
        exact ⟨numbers, isShape⟩

/-! ## Definitions -/

/-- The spelling of a definition: a code, and a shape whose name begins where the
digits of the code end. -/
inductive Defines : Text → Command K → Prop
  | intro {digits text name : Text} {values : List K} {shape : ApertureShape K}
      (run : Digits.isRun digits = true) (large : 10 ≤ Digits.value digits)
      (small : Digits.value digits < 2 ^ 32) (spelled : Spelled text name values)
      (noDigit : ∀ c ∈ name.head?, c.isDigit = false)
      (isShape : IsShape name values shape) :
      Defines ('A' :: 'D' :: 'D' :: (digits ++ text))
        (.defineAperture (Digits.value digits) shape)

theorem IsShape.name_ne_nil {name : Text} {values : List K} {shape : ApertureShape K}
    (isShape : IsShape name values shape) : name ≠ [] := by
  cases isShape with
  | custom _ some _ => exact some
  | _ => exact List.cons_ne_nil _ _

theorem Spelled.head?_eq {text name : Text} {values : List K}
    (spelled : Spelled text name values)
    (some : name ≠ []) : text.head? = name.head? := by
  cases spelled with
  | alone => rfl
  | numbers => rw [List.head?_append_of_ne_nil _ some]

theorem readAperture_eq_ok_iff {rest : Text} {command : Command K} :
    readAperture ('A' :: 'D' :: rest) = .ok command ↔
      Defines ('A' :: 'D' :: rest) command := by
  constructor
  · intro read
    unfold readAperture at read
    split at read
    · rename_i behind isD
      change rest = 'D' :: behind at isD
      subst isD
      rcases Text.exists_of_spanDigits behind with ⟨digits, text, rfl, all, ends⟩
      simp only [Decimal.spanDigits_eq text all ends] at read
      split at read
      · cases read
      · split at read
        · cases read
        · rename_i code isCode
          split at read
          · cases read
          · rename_i large
            rcases map_eq_ok_iff.mp read with ⟨shape, isShape, rfl⟩
            rcases readShape_eq_ok_iff.mp isShape with ⟨name, values, spelled, isShape⟩
            rw [spelled.head?_eq isShape.name_ne_nil] at ends
            cases Digits.readCode_eq_some_iff.mp isCode with
            | plain run small =>
                exact .intro run (not_lt.mp large) small spelled ends isShape
            | signed =>
                exact absurd all (by simp [show Char.isDigit '+' = false from rfl])
    · cases read
  · intro defines
    cases defines with
    | @intro digits text name values shape run large small spelled noDigit isShape =>
        have all := Digits.all_of_isRun run
        have begins := spelled.head?_eq isShape.name_ne_nil
        have visible : text.isEmpty = false := by
          cases spelled with
          | alone => simpa using isShape.name_ne_nil
          | numbers => simp
        have isRead := readShape_eq_ok_iff.mpr ⟨name, values, spelled, isShape⟩
        rw [← begins] at noDigit
        change readAperture ('A' :: 'D' :: 'D' :: (digits ++ text)) = _
        simp only [readAperture, List.drop_succ_cons, List.drop_zero,
          Decimal.spanDigits_eq text all noDigit, visible, Digits.readCode_run run,
          if_pos small, if_neg (not_lt.mpr large), isRead, Except.map, Bool.false_eq_true,
          if_false]

theorem read_aperture_eq_ok_iff (rest : Text) (outcome : Option (Command K)) :
    read ('A' :: 'D' :: rest) = .ok outcome ↔
      ∃ command, Defines ('A' :: 'D' :: rest) command ∧ some command = outcome := by
  have only : read (K := K) ('A' :: 'D' :: rest) =
      (readAperture ('A' :: 'D' :: rest)).map some :=
    rfl
  rw [only, map_eq_ok_iff]
  simp only [readAperture_eq_ok_iff]

end Parameter

end Photoplot
