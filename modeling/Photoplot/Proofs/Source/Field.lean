import Photoplot.Proofs.Number.Decimal
import Photoplot.Source.Word

/-! # The fields of words

A field is a letter and the value behind it. Fields that stand in a row are cut
apart again, and what they tell the plotter depends on the last value of each
letter. -/

namespace Photoplot

/-- What a chain of readers gives, its first link must have given. -/
theorem bind_eq_ok_iff {ε α β : Type} {first : Except ε α}
    {next : α → Except ε β} {last : β} :
    first.bind next = .ok last ↔ ∃ value, first = .ok value ∧ next value = .ok last := by
  cases first <;> simp [Except.bind]

theorem map_eq_ok_iff {ε α β : Type} {first : Except ε α} {change : α → β} {last : β} :
    first.map change = .ok last ↔ ∃ value, first = .ok value ∧ change value = last := by
  cases first <;> simp [Except.map]

/-- Every text is digits and something that does not begin with one. -/
theorem Text.exists_of_spanDigits (text : Text) :
    ∃ digits rest, text = digits ++ rest ∧ digits.all Char.isDigit = true ∧
      ∀ c ∈ rest.head?, c.isDigit = false := by
  refine ⟨_, _, (Text.spanDigits_append text).symm, List.all_takeWhile, ?_⟩
  intro c head
  have stop := List.head?_dropWhile_not Char.isDigit text
  rw [Text.spanDigits, Option.mem_def] at head
  rw [head] at stop
  simpa using stop

namespace Digits

theorem all_of_isRun {digits : Text} (run : isRun digits = true) :
    digits.all Char.isDigit = true := by
  simp only [isRun, Bool.and_eq_true] at run
  exact run.2

inductive IsCode : Text → ℕ → Prop
  | plain {digits : Text} (run : isRun digits = true) (small : value digits < 2 ^ 32) :
      IsCode digits (value digits)
  | signed {digits : Text} (run : isRun digits = true) (small : value digits < 2 ^ 32) :
      IsCode ('+' :: digits) (value digits)

theorem readCode_run {digits : Text} (run : isRun digits = true) :
    readCode digits = if value digits < 2 ^ 32 then some (value digits) else none := by
  have unsigned : ∀ rest, digits ≠ '+' :: rest := by
    rintro rest rfl
    simp [isRun, show Char.isDigit '+' = false from rfl] at run
  unfold readCode
  split
  · exact absurd rfl (unsigned _)
  · simp [run]

theorem readCode_eq_some_iff {text : Text} {code : ℕ} :
    readCode text = some code ↔ IsCode text code := by
  constructor
  · intro reads
    unfold readCode at reads
    split at reads
    all_goals
      simp only [Option.ite_none_right_eq_some, Option.some.injEq, Bool.and_eq_true,
        decide_eq_true_eq] at reads
      rcases reads with ⟨⟨run, small⟩, rfl⟩
    · exact .signed run small
    · exact .plain run small
  · intro isCode
    cases isCode with
    | plain run small => rw [readCode_run run, if_pos small]
    | signed run small => simpa [readCode, run] using small

end Digits

namespace Word

variable {K : Type} [Scalar K]

/-! ## Fields -/

abbrev Field := Char × Text

def key (field : Field) : Char := field.1.toUpper

def upper (field : Field) : Field := (key field, field.2)

def letters : List Char := ['X', 'Y', 'I', 'J', 'D']

def spell (fields : List Field) : Text := fields.flatMap fun field => field.1 :: field.2

/-- A value ends where something else than a number goes on. -/
structure IsField (field : Field) : Prop where
  letter : key field ∈ letters
  value : field.2.all isFieldCharacter = true

instance (field : Field) : Decidable (IsField field) :=
  decidable_of_iff
    (key field ∈ letters ∧ field.2.all isFieldCharacter = true)
    ⟨fun ⟨letter, value⟩ => ⟨letter, value⟩, fun ⟨letter, value⟩ => ⟨letter, value⟩⟩

def IsRead (K : Type) [Scalar K] (field : Field) : Prop :=
  if key field = 'D' then ∃ code, Digits.IsCode field.2 code
  else (RawCoordinate.read? (K := K) field.2).isSome = true

def valuesOf (letter : Char) (fields : List Field) : List Text :=
  (fields.filter fun field => key field = letter).map Prod.snd

def lastValue? (letter : Char) (fields : List Field) : Option Text :=
  (valuesOf letter fields).getLast?

def coordinatesOf (fields : List Field) : CoordinateFields K where
  x := (lastValue? 'X' fields).bind RawCoordinate.read?
  y := (lastValue? 'Y' fields).bind RawCoordinate.read?
  i := (lastValue? 'I' fields).bind RawCoordinate.read?
  j := (lastValue? 'J' fields).bind RawCoordinate.read?

def codeOf? (fields : List Field) : Option ℕ :=
    (lastValue? 'D' fields).bind Digits.readCode

def collected (fields : List Field) : Fields K := ⟨coordinatesOf fields, codeOf? fields⟩

theorem mem_valuesOf {letter : Char} {value : Text} {fields : List Field} :
    value ∈ valuesOf letter fields ↔
      ∃ field ∈ fields, key field = letter ∧ field.2 = value := by
  simp [valuesOf, and_assoc]

theorem lastValue?_concat (letter : Char) (fields : List Field) (field : Field) :
    lastValue? letter (fields ++ [field]) =
      if key field = letter then some field.2 else lastValue? letter fields := by
  by_cases same : key field = letter <;>
    simp [lastValue?, valuesOf, List.filter_append, same]

/-! ## Cutting

Letters end the values before them, so fields that stand in a row are cut apart
where they were joined. -/

theorem isFieldCharacter_eq_false {c : Char} (alphabetic : c.isAlpha = true) :
    isFieldCharacter c = false := by
  have solid : c ≠ '+' ∧ c ≠ '-' ∧ c ≠ '.' := by
    refine ⟨?_, ?_, ?_⟩ <;> rintro rfl <;> exact absurd alphabetic (by decide)
  have noDigit : c.isDigit = false := by
    simp only [Char.isAlpha, Char.isUpper, Char.isLower, Char.isDigit, ge_iff_le,
      UInt32.le_iff_toNat_le, Bool.or_eq_true, Bool.and_eq_true, decide_eq_true_eq,
      Bool.and_eq_false_iff, decide_eq_false_iff_not] at alphabetic ⊢
    have nine : '9'.val.toNat = 57 := rfl
    have upper : 'A'.val.toNat = 65 := rfl
    have lower : 'a'.val.toNat = 97 := rfl
    omega
  simp [isFieldCharacter, noDigit, solid]

theorem isAlpha_of_toUpper {c : Char} (letter : c.toUpper ∈ letters) :
    c.isAlpha = true := by
  rw [← Char.isUpper_toUpper_eq_isAlpha]
  simp only [letters, List.mem_cons, List.not_mem_nil, or_false] at letter
  rcases letter with letter | letter | letter | letter | letter <;> rw [letter] <;> rfl

theorem spell_cons (field : Field) (fields : List Field) :
    spell (field :: fields) = field.1 :: (field.2 ++ spell fields) := by
  simp [spell]

def IsCut (field : Field) : Prop :=
  field.1.isAlpha = true ∧ field.2.all isFieldCharacter = true

theorem IsField.isCut {field : Field} (isField : IsField field) : IsCut field :=
  ⟨isAlpha_of_toUpper isField.letter, isField.value⟩

theorem cutFields_spell {fields : List Field} (areCut : ∀ field ∈ fields, IsCut field) :
    cutFields (spell fields) = (fields.map upper, []) := by
  induction fields with
  | nil => simp [spell, cutFields]
  | cons field fields induction =>
      simp only [List.forall_mem_cons] at areCut
      rcases areCut with ⟨⟨alphabetic, value⟩, areCut⟩
      have inside : ∀ c ∈ field.2, isFieldCharacter c = true := List.all_eq_true.mp value
      have stop : (spell fields).takeWhile isFieldCharacter = [] ∧
          (spell fields).dropWhile isFieldCharacter = spell fields := by
        cases fields with
        | nil => exact ⟨rfl, rfl⟩
        | cons next fields =>
            have outside := isFieldCharacter_eq_false (areCut next (by simp)).1
            simp [spell_cons, outside]
      rw [spell_cons, cutFields, if_pos alphabetic, List.takeWhile_append_of_pos inside,
        List.dropWhile_append_of_pos inside, stop.1, stop.2, induction areCut]
      simp [upper, key]

theorem exists_of_cutFields (text : Text) :
    ∃ fields, (∀ field ∈ fields, IsCut field) ∧
      (cutFields text).1 = fields.map upper ∧
      text = spell fields ++ (cutFields text).2 := by
  fun_induction cutFields text with
  | case1 => exact ⟨[], by simp, rfl, rfl⟩
  | case2 letter rest alphabetic cut remainder isCut induction =>
      rcases induction with ⟨fields, areCut, same, joined⟩
      rw [isCut] at same joined
      refine ⟨(letter, rest.takeWhile isFieldCharacter) :: fields, ?_, ?_, ?_⟩
      · exact List.forall_mem_cons.mpr ⟨⟨alphabetic, List.all_takeWhile⟩, areCut⟩
      · simpa [upper, key] using same
      · rw [spell_cons, List.cons_append, List.append_assoc, ← joined,
          List.takeWhile_append_dropWhile]
  | case3 letter rest other => exact ⟨[], by simp, rfl, rfl⟩

/-! ## Collecting -/

/-- A field is set where its letter is known and its value is read. -/
theorem setField_eq_ok_iff (word : Text) (fields : List Field)
    (field : Field) (next : Fields K) :
    setField word (collected fields) (upper field) = .ok next ↔
      (key field ∈ letters ∧ IsRead K field) ∧ collected (fields ++ [field]) = next := by
  by_cases known : key field ∈ letters
  · simp only [known, true_and]
    simp only [letters, List.mem_cons, List.not_mem_nil, or_false] at known
    rcases known with letter | letter | letter | letter | letter
    case inr.inr.inr.inr =>
      cases read : Digits.readCode field.2 <;>
        simp [setField, upper, collected, coordinatesOf, codeOf?, lastValue?_concat,
          IsRead, letter, ← Digits.readCode_eq_some_iff, read]
    all_goals
      cases read : RawCoordinate.read? (K := K) field.2 <;>
        simp [setField, upper, collected, coordinatesOf, codeOf?, lastValue?_concat,
          IsRead, letter, read, Except.map]
  · have refused : setField word (collected (K := K) fields) (upper field) =
        .error (.unexpectedLetter (key field) word) := by
      simp only [letters, List.mem_cons, List.not_mem_nil, or_false, not_or] at known
      simp only [setField, upper]
      split
      case h_6 => rfl
      all_goals simp_all
    simp [refused, known]

theorem foldlM_setField_eq_ok_iff (word : Text) (fields : List Field) (last : Fields K) :
    (fields.map upper).foldlM (setField word) ⟨.none, none⟩ =
        .ok last ↔
      (∀ field ∈ fields, key field ∈ letters ∧ IsRead K field) ∧
        collected fields = last := by
  induction fields using List.reverseRecOn generalizing last with
  | nil =>
      have nothing : collected (K := K) [] = ⟨.none, none⟩ := rfl
      simp [nothing, pure, Except.pure]
  | append_singleton fields field induction =>
      rw [List.map_append, List.foldlM_append]
      refine bind_eq_ok_iff.trans ?_
      simp only [induction, List.map_cons, List.map_nil, List.foldlM_cons,
        List.foldlM_nil, bind_pure, List.forall_mem_append,
        List.forall_mem_singleton]
      constructor
      · rintro ⟨before, ⟨areRead, rfl⟩, set⟩
        rcases (setField_eq_ok_iff word fields field last).mp set with ⟨isRead, same⟩
        exact ⟨⟨areRead, isRead⟩, same⟩
      · rintro ⟨⟨areRead, isRead⟩, same⟩
        exact ⟨_, ⟨areRead, rfl⟩,
          (setField_eq_ok_iff word fields field last).mpr ⟨isRead, same⟩⟩

def AreRead (K : Type) [Scalar K] (fields : List Field) : Prop :=
  ∀ field ∈ fields, IsField field ∧ IsRead K field

theorem AreRead.isField {fields : List Field} (areRead : AreRead K fields) :
    ∀ field ∈ fields, IsField field :=
  fun field member => (areRead field member).1

theorem readFields_eq_ok_iff (word text : Text) (last : Fields K) :
    readFields word text = .ok last ↔
      ∃ fields, AreRead K fields ∧ text = spell fields ∧ collected fields = last := by
  constructor
  · intro reads
    rcases exists_of_cutFields text with ⟨fields, areCut, isCut, joined⟩
    rcases bind_eq_ok_iff.mp reads with ⟨read, folded, ended⟩
    rw [isCut, foldlM_setField_eq_ok_iff] at folded
    rcases folded with ⟨areRead, rfl⟩
    split at ended
    · rename_i nothing
      rw [List.isEmpty_iff.mp nothing, List.append_nil] at joined
      refine ⟨fields, fun field member => ?_, joined, Except.ok.inj ended⟩
      exact ⟨⟨(areRead field member).1, (areCut field member).2⟩,
        (areRead field member).2⟩
    · exact absurd ended (by simp)
  · rintro ⟨fields, areRead, rfl, rfl⟩
    have areCut : ∀ field ∈ fields, IsCut field := fun field member =>
      (areRead.isField field member).isCut
    have folded := (foldlM_setField_eq_ok_iff word fields (collected (K := K) fields)).mpr
      ⟨fun field member => ⟨(areRead field member).1.letter, (areRead field member).2⟩,
        rfl⟩
    refine bind_eq_ok_iff.mpr ⟨collected fields, ?_, ?_⟩
    · rwa [cutFields_spell areCut]
    · rw [cutFields_spell areCut]
      rfl

/-! ## Meaning -/

def actionCode : Action → ℕ
  | .draw => 1
  | .move => 2
  | .flash => 3

/-- What the fields of a word tell the plotter to do. Codes from ten on select an
aperture and stand alone; the last code of a word counts. -/
inductive Means : List Field → List (Command K) → Prop
  | nothing : Means [] []
  | repeated {fields : List Field} (some : fields ≠ [])
      (noCode : ∀ field ∈ fields, key field ≠ 'D') :
      Means fields [.operation (coordinatesOf fields) none]
  | action {fields : List Field} {value : Text} {action : Action}
      (last : lastValue? 'D' fields = some value)
      (isCode : Digits.IsCode value (actionCode action)) :
      Means fields [.operation (coordinatesOf fields) (some action)]
  | select {fields : List Field} {value : Text} {code : ℕ}
      (last : lastValue? 'D' fields = some value) (isCode : Digits.IsCode value code)
      (large : 10 ≤ code) (alone : ∀ field ∈ fields, key field = 'D') :
      Means fields [.select code]

theorem lastValue?_eq_none_iff {letter : Char} {fields : List Field} :
    lastValue? letter fields = none ↔ ∀ field ∈ fields, key field ≠ letter := by
  simp [lastValue?, valuesOf]

theorem exists_of_lastValue? {letter : Char} {fields : List Field} {value : Text}
    (last : lastValue? letter fields = some value) :
    ∃ field ∈ fields, key field = letter ∧ field.2 = value :=
  mem_valuesOf.mp (List.mem_of_getLast? last)

section

variable {fields : List Field} (areRead : AreRead K fields)

include areRead

theorem codeOf?_eq_none_iff :
    codeOf? fields = none ↔ ∀ field ∈ fields, key field ≠ 'D' := by
  rw [← lastValue?_eq_none_iff, codeOf?]
  cases last : lastValue? 'D' fields with
  | none => simp
  | some value =>
      rcases exists_of_lastValue? last with ⟨field, member, isCode, rfl⟩
      have isRead := (areRead field member).2
      rw [IsRead, if_pos isCode] at isRead
      rcases isRead with ⟨code, isCode⟩
      simp [Digits.readCode_eq_some_iff.mpr isCode]

theorem bind_read?_eq_none_iff {letter : Char} (noCode : letter ≠ 'D') :
    (lastValue? letter fields).bind (RawCoordinate.read? (K := K)) = none ↔
      ∀ field ∈ fields, key field ≠ letter := by
  rw [← lastValue?_eq_none_iff]
  cases last : lastValue? letter fields with
  | none => simp
  | some value =>
      rcases exists_of_lastValue? last with ⟨field, member, rfl, rfl⟩
      have isRead := (areRead field member).2
      rw [IsRead, if_neg noCode] at isRead
      simpa [← Option.isSome_iff_ne_none] using isRead

theorem isEmpty_coordinatesOf_iff :
    (coordinatesOf (K := K) fields).isEmpty = true ↔
      ∀ field ∈ fields, key field = 'D' := by
  have x := bind_read?_eq_none_iff areRead (show 'X' ≠ 'D' by decide)
  have y := bind_read?_eq_none_iff areRead (show 'Y' ≠ 'D' by decide)
  have i := bind_read?_eq_none_iff areRead (show 'I' ≠ 'D' by decide)
  have j := bind_read?_eq_none_iff areRead (show 'J' ≠ 'D' by decide)
  simp only [CoordinateFields.isEmpty, coordinatesOf, Bool.and_eq_true,
    Option.isNone_iff_eq_none, x, y, i, j]
  constructor
  · rintro ⟨⟨⟨x, y⟩, i⟩, j⟩ field member
    have letter := (areRead field member).1.letter
    simpa [letters, x field member, y field member, i field member,
      j field member] using letter
  · intro alone
    refine ⟨⟨⟨?_, ?_⟩, ?_⟩, ?_⟩ <;> intro field member <;>
      rw [alone field member] <;> decide

theorem isEmpty_coordinatesOf_eq_false (some : fields ≠ [])
    (noCode : ∀ field ∈ fields, key field ≠ 'D') :
    (coordinatesOf (K := K) fields).isEmpty = false := by
  rcases List.exists_mem_of_ne_nil fields some with ⟨field, member⟩
  rw [Bool.eq_false_iff, ne_eq, isEmpty_coordinatesOf_iff areRead]
  exact fun alone => noCode field member (alone field member)

theorem means_of_fieldCommands {word : Text} {commands : List (Command K)}
    (reads : fieldCommands word (collected fields) = .ok commands) :
    Means fields commands := by
  have noCoordinate := isEmpty_coordinatesOf_iff areRead
  cases isCode : codeOf? fields with
  | none =>
      have noCode := (codeOf?_eq_none_iff areRead).mp isCode
      simp only [fieldCommands, collected, isCode] at reads
      split at reads <;> rcases Except.ok.inj reads with rfl
      · rename_i empty
        have nothing : fields = [] :=
            List.eq_nil_iff_forall_not_mem.mpr fun field member =>
          noCode field member (noCoordinate.mp empty field member)
        subst nothing
        exact .nothing
      · rename_i some
        refine .repeated ?_ noCode
        rintro rfl
        exact some rfl
  | some code =>
      rcases Option.bind_eq_some_iff.mp isCode with ⟨value, last, spelled⟩
      rw [Digits.readCode_eq_some_iff] at spelled
      have action (action : Action) (same : some code = some (actionCode action))
          (reads : Except.ok (ε := ReadError)
            [.operation (coordinatesOf fields) (some action)] =
            .ok commands) : Means fields commands := by
        rcases Except.ok.inj reads with rfl
        rw [Option.some.inj same] at spelled
        exact .action last spelled
      simp only [fieldCommands, collected, isCode] at reads
      split at reads
      case h_1 none => exact nomatch none
      case h_2 one => exact action .draw one reads
      case h_3 two => exact action .move two reads
      case h_4 three => exact action .flash three reads
      case h_5 other =>
        rcases Option.some.inj other with rfl
        split at reads
        · rename_i large
          split at reads
          · rename_i empty
            rcases Except.ok.inj reads with rfl
            exact .select last spelled large (noCoordinate.mp empty)
          · exact absurd reads (by simp)
        · exact absurd reads (by simp)

theorem fieldCommands_of_means {commands : List (Command K)}
    (means : Means fields commands)
    (word : Text) : fieldCommands word (collected fields) = .ok commands := by
  cases means with
  | nothing => rfl
  | repeated some noCode =>
      simp [fieldCommands, collected, (codeOf?_eq_none_iff areRead).mpr noCode,
        isEmpty_coordinatesOf_eq_false areRead some noCode]
  | @action _ _ action last isCode =>
      have code : codeOf? fields = some (actionCode action) := by
        simp [codeOf?, last, Digits.readCode_eq_some_iff.mpr isCode]
      cases action <;> simp [fieldCommands, collected, code, actionCode]
  | @select _ _ number last isCode large alone =>
      have code : codeOf? fields = some number := by
        simp [codeOf?, last, Digits.readCode_eq_some_iff.mpr isCode]
      have alone := (isEmpty_coordinatesOf_iff areRead).mpr alone
      simp only [fieldCommands, collected, code]
      split
      case h_5 other =>
        rcases Option.some.inj other with rfl
        rw [if_pos large, if_pos alone]
      case h_1 none => exact nomatch none
      all_goals
        rename_i small
        rcases Option.some.inj small with rfl
        omega

end

end Word

end Photoplot
