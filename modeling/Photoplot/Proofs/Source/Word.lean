import Photoplot.Proofs.Source.Field
import Photoplot.Scalar.Binary64
import Photoplot.Source.Program

/-! # The grammar of words

What a word says, told by how it is spelled: a mode in front, if there is one,
and behind it nothing, an end code, or fields in any order. Reading finds exactly
the spelled words, and what they say. -/

namespace Photoplot.Word

variable {K : Type} [Scalar K]

/-! ## Whole words -/

inductive Body : Text → List (Command K) → Prop
  | ending {code : Text} {number : ℕ} (isCode : Digits.IsCode code number) :
      Body ('M' :: code) (if number ≤ 2 then [.endOfFile] else [])
  | fields {fields : List Field} {commands : List (Command K)}
      (areRead : AreRead K fields)
      (means : Means fields commands) : Body (spell fields) commands

inductive Reads : Text → List (Command K) → Prop
  | plain {text : Text} {commands : List (Command K)} (body : Body text commands) :
      Reads text commands
  | mode {digits text : Text} {commands : List (Command K)}
      (run : Digits.isRun digits = true)
      (small : Digits.value digits < 2 ^ 32) (body : Body text commands) :
      Reads ('G' :: (digits ++ text))
        ((modeCommand? (Digits.value digits)).toList ++ commands)

/-- Fields begin with one of their letters. -/
theorem head_spell {fields : List Field} (areFields : ∀ field ∈ fields, IsField field)
    {c : Char} {rest : Text} (spelled : spell fields = c :: rest) :
    c.toUpper ∈ letters := by
  cases fields with
  | nil => exact nomatch spelled
  | cons field fields =>
      rw [spell_cons] at spelled
      rcases (List.cons.inj spelled).1 with rfl
      exact (areFields field (by simp)).letter

/-- They do not begin with a digit. -/
theorem isDigit_head_spell {fields : List Field}
    (areFields : ∀ field ∈ fields, IsField field) :
    ∀ c ∈ (spell fields).head?, c.isDigit = false := by
  intro c head
  rcases List.head?_eq_some_iff.mp head with ⟨rest, cut⟩
  have outside :=
      isFieldCharacter_eq_false (isAlpha_of_toUpper (head_spell areFields cut))
  simp only [isFieldCharacter, Bool.or_eq_false_iff] at outside
  exact outside.1.1.1

theorem readBody_eq_ok_iff (word text : Text) (commands : List (Command K)) :
    readBody word text = .ok commands ↔ Body text commands := by
  constructor
  · intro reads
    unfold readBody at reads
    split at reads
    · split at reads
      · rename_i isCode
        rcases Except.ok.inj reads with rfl
        exact .ending (Digits.readCode_eq_some_iff.mp isCode)
      · exact absurd reads (by simp)
    · rcases bind_eq_ok_iff.mp reads with ⟨last, read, means⟩
      rcases (readFields_eq_ok_iff word text last).mp read with
          ⟨fields, areRead, rfl, rfl⟩
      exact .fields areRead (means_of_fieldCommands areRead means)
  · intro body
    cases body with
    | ending isCode => simp [readBody, Digits.readCode_eq_some_iff.mpr isCode]
    | @fields fields _ areRead means =>
        have read := (readFields_eq_ok_iff word _ (collected (K := K) fields)).mpr
          ⟨fields, areRead, rfl, rfl⟩
        unfold readBody
        split
        · rename_i spelled
          exact absurd (head_spell areRead.isField spelled) (by decide)
        · rw [read]
          exact fieldCommands_of_means areRead means word

theorem Body.head {text : Text} {commands : List (Command K)}
    (body : Body text commands) :
    (∀ c ∈ text.head?, c.isDigit = false) ∧ 'G' ∉ text.head? := by
  cases body with
  | ending isCode => simp [show Char.isDigit 'M' = false from rfl]
  | fields areRead means =>
      refine ⟨isDigit_head_spell areRead.isField, fun head => ?_⟩
      rcases List.head?_eq_some_iff.mp head with ⟨rest, cut⟩
      exact absurd (head_spell areRead.isField cut) (by decide)

omit [Scalar K] in
theorem value_modeCommands (code : ℕ) :
    (modeCommands (K := K) code).value = (modeCommand? code).toList := by
  unfold modeCommands
  split
  · rename_i command known
    simp [known]
  · rename_i unknown
    rw [unknown]
    split <;> rfl

theorem readBody_nil (word : Text) : readBody (K := K) word [] = .ok [] :=
  (readBody_eq_ok_iff word [] []).mpr
    (@Body.fields _ _ [] [] (by simp [AreRead]) .nothing)

/-- The digits of a mode end where its body begins. -/
theorem value_read_mode {digits text : Text} (run : Digits.isRun digits = true)
    (ends : ∀ c ∈ text.head?, c.isDigit = false) (commands : List (Command K)) :
    (read ('G' :: (digits ++ text))).value = .ok commands ↔
      Digits.value digits < 2 ^ 32 ∧ ∃ others, Body text others ∧
        (modeCommand? (Digits.value digits)).toList ++ others = commands := by
  have all := Digits.all_of_isRun run
  have joined : (read (K := K) ('G' :: (digits ++ text))).value =
      if Digits.value digits < 2 ^ 32 then
        (readBody ('G' :: (digits ++ text)) text).map
          ((modeCommand? (Digits.value digits)).toList ++ ·)
      else .error (.gCode ('G' :: (digits ++ text))) := by
    simp only [read, Decimal.spanDigits_eq text all ends, Digits.readCode_run run]
    by_cases small : Digits.value digits < 2 ^ 32
    · rw [if_pos small, if_pos small]
      cases text with
      | nil => simp [value_modeCommands, readBody_nil, Except.map]
      | cons c rest => simp [value_modeCommands]
    · rw [if_neg small, if_neg small]
      rfl
  rw [joined]
  by_cases small : Digits.value digits < 2 ^ 32
  · rw [if_pos small, map_eq_ok_iff]
    simp only [small, true_and, readBody_eq_ok_iff]
  · rw [if_neg small]
    simp only [small, false_and, reduceCtorEq]

theorem value_read_eq_ok_iff (word : Text) (commands : List (Command K)) :
    (read word).value = .ok commands ↔ Reads word commands := by
  constructor
  · intro reads
    by_cases isMode : ∃ rest, word = 'G' :: rest
    · rcases isMode with ⟨rest, rfl⟩
      rcases Text.exists_of_spanDigits rest with ⟨digits, body, rfl, all, ends⟩
      cases run : Digits.isRun digits with
      | true =>
          rcases (value_read_mode run ends commands).mp reads with
              ⟨small, others, body, rfl⟩
          exact .mode run small body
      | false =>
          have none : digits = [] := by simpa [Digits.isRun, all] using run
          rw [none, read, @Decimal.spanDigits_eq [] body rfl ends] at reads
          exact nomatch reads
    · unfold read at reads
      split at reads
      · exact absurd ⟨_, rfl⟩ isMode
      · exact .plain ((readBody_eq_ok_iff word word commands).mp reads)
  · intro reads
    cases reads with
    | plain body =>
        unfold read
        split
        · rename_i rest
          exact absurd rfl body.head.2
        · exact (readBody_eq_ok_iff word word commands).mpr body
    | mode run small body =>
        exact (value_read_mode run body.head.1 _).mpr
          ⟨small, _, body, rfl⟩

/-! ## Order of fields

Fields of different letters do not see each other: only the order among those of
one letter counts. -/

def IsMode (text : Text) : Prop :=
  text = [] ∨ ∃ digits, Digits.isRun digits = true ∧ text = 'G' :: digits

def SameValues (first second : List Field) : Prop :=
  ∀ letter, valuesOf letter first = valuesOf letter second

theorem SameValues.symm {first second : List Field} (same : SameValues first second) :
    SameValues second first :=
  fun letter => (same letter).symm

theorem valuesOf_cons (letter : Char) (field : Field) (fields : List Field) :
    valuesOf letter (field :: fields) =
      if key field = letter then field.2 :: valuesOf letter fields
      else valuesOf letter fields := by
  by_cases same : key field = letter <;> simp [valuesOf, same]

/-- Fields of letters that are all different may be put in any order. -/
theorem SameValues.of_perm {first second : List Field} (perm : first.Perm second)
    (distinct : (first.map key).Nodup) : SameValues first second := by
  intro letter
  induction perm with
  | nil => rfl
  | cons field _ induction =>
      rw [List.map_cons, List.nodup_cons] at distinct
      rw [valuesOf_cons, valuesOf_cons, induction distinct.2]
  | swap first second fields =>
      have different : key second ≠ key first := by simp_all
      rcases eq_or_ne (key first) letter with rfl | other
      · simp [valuesOf_cons, different]
      · simp [valuesOf_cons, other]
  | trans perm _ induction next =>
      rw [induction distinct, next ((perm.map key).nodup_iff.mp distinct)]

/-- The same text is cut into the same values. -/
theorem sameValues_of_spell_eq {first second : List Field}
    (areFirst : ∀ field ∈ first, IsField field)
    (areSecond : ∀ field ∈ second, IsField field)
    (spelled : spell first = spell second) : SameValues first second := by
  have cut := congrArg (fun text => (cutFields text).1) spelled
  simp only [cutFields_spell fun field member => (areFirst field member).isCut,
    cutFields_spell fun field member => (areSecond field member).isCut] at cut
  have values (letter : Char) (fields : List Field) : valuesOf letter fields =
      ((fields.map upper).filter fun field => field.1 = letter).map
        Prod.snd := by
    rw [List.filter_map, List.map_map]
    rfl
  intro letter
  rw [values, values, cut]

section

variable {first second : List Field} (same : SameValues first second)

include same

theorem SameValues.exists_mem {field : Field} (member : field ∈ second) :
    ∃ other ∈ first, key other = key field ∧ other.2 = field.2 := by
  have value : field.2 ∈ valuesOf (key field) second :=
    mem_valuesOf.mpr ⟨field, member, rfl, rfl⟩
  rw [← same] at value
  exact mem_valuesOf.mp value

theorem SameValues.lastValue?_eq (letter : Char) :
    lastValue? letter first = lastValue? letter second := by
  rw [lastValue?, lastValue?, same letter]

theorem SameValues.coordinatesOf_eq :
    coordinatesOf (K := K) first = coordinatesOf second := by
  simp only [coordinatesOf, same.lastValue?_eq]

theorem SameValues.isField (areFields : ∀ field ∈ first, IsField field) :
    ∀ field ∈ second, IsField field := by
  intro field member
  rcases same.exists_mem member with ⟨other, isMember, letter, value⟩
  have isField := areFields other isMember
  exact ⟨letter ▸ isField.letter, value ▸ isField.value⟩

theorem SameValues.areRead (areRead : AreRead K first) : AreRead K second := by
  intro field member
  refine ⟨same.isField areRead.isField field member, ?_⟩
  rcases same.exists_mem member with ⟨other, isMember, letter, value⟩
  have isRead := (areRead other isMember).2
  rwa [IsRead, letter, value] at isRead

theorem SameValues.means {commands : List (Command K)} (means : Means first commands) :
    Means second commands := by
  cases means with
  | nothing =>
      cases second with
      | nil => exact .nothing
      | cons field _ =>
          rcases same.exists_mem (List.mem_cons_self : field ∈ _) with ⟨_, isMember, -⟩
          exact nomatch isMember
  | repeated some noCode =>
      rw [same.coordinatesOf_eq]
      rcases List.exists_mem_of_ne_nil first some with ⟨field, member⟩
      rcases same.symm.exists_mem member with ⟨other, isMember, -⟩
      refine .repeated (List.ne_nil_of_mem isMember) fun field member => ?_
      rcases same.exists_mem member with ⟨other, isMember, letter, -⟩
      rw [← letter]
      exact noCode other isMember
  | action last isCode =>
      rw [same.coordinatesOf_eq]
      rw [same.lastValue?_eq] at last
      exact .action last isCode
  | select last isCode large alone =>
      rw [same.lastValue?_eq] at last
      refine .select last isCode large fun field member => ?_
      rcases same.exists_mem member with ⟨other, isMember, letter, -⟩
      rw [← letter, alone other isMember]

theorem Body.reorder (areFields : ∀ field ∈ first, IsField field)
    {commands : List (Command K)}
    (body : Body (spell first) commands) : Body (spell second) commands := by
  generalize spelled : spell first = text at body
  cases body with
  | ending isCode => exact absurd (head_spell areFields spelled) (by decide)
  | @fields others _ areRead means =>
      have joined : SameValues others second := fun letter =>
        (sameValues_of_spell_eq areRead.isField areFields spelled.symm letter).trans
          (same letter)
      exact .fields (joined.areRead areRead) (joined.means means)

/-- A mode may stand in front of the fields. -/
theorem Reads.reorder {mode : Text} (isMode : IsMode mode)
    (areFields : ∀ field ∈ first, IsField field) {commands : List (Command K)}
    (reads : Reads (mode ++ spell first) commands) :
    Reads (mode ++ spell second) commands := by
  rcases isMode with rfl | ⟨digits, run, rfl⟩
  · generalize spelled : [] ++ spell first = text at reads
    rw [List.nil_append] at spelled ⊢
    cases reads with
    | plain body =>
        rw [← spelled] at body
        exact .plain (body.reorder same areFields)
    | mode run small body => exact absurd (head_spell areFields spelled) (by decide)
  · rw [List.cons_append, ← value_read_eq_ok_iff] at reads ⊢
    rw [value_read_mode run (isDigit_head_spell areFields)] at reads
    rw [value_read_mode run (isDigit_head_spell (same.isField areFields))]
    rcases reads with ⟨small, others, body, joined⟩
    exact ⟨small, others, body.reorder same areFields, joined⟩

end

/-! ## The grammar -/

theorem value_ofWord (word : Text) :
    (Program.ofWord (K := K) word).value =
      match (read (K := K) word).value with
      | .ok commands => commands
      | .error _ => [] := by
  rw [Program.ofWord, Noted.value_bind]
  cases (read (K := K) word).value <;> rfl

/-- Words are read exactly as they are spelled. A word that is spelled otherwise
gives no command at all, and fields of different letters may change places. -/
theorem ofWord_iff_reads (word : Text) :
    (∀ commands : List (Command K), (read word).value = .ok commands ↔
      Reads word commands) ∧
      (∀ commands : List (Command K), Reads word commands →
        (Program.ofWord word).value = commands) ∧
      ((∀ commands : List (Command K), ¬Reads word commands) →
        (Program.ofWord (K := K) word).value = []) ∧
      ∀ (mode : Text) (fields reordered : List Field), IsMode mode →
        (∀ field ∈ fields, IsField field) → SameValues fields reordered →
        word = mode ++ spell fields →
        ∀ commands : List (Command K),
          Reads word commands ↔ Reads (mode ++ spell reordered) commands := by
  refine ⟨value_read_eq_ok_iff word, ?_, ?_, ?_⟩
  · intro commands reads
    rw [value_ofWord, (value_read_eq_ok_iff word commands).mpr reads]
  · intro unread
    rw [value_ofWord]
    cases outcome : (read (K := K) word).value with
    | error _ => rfl
    | ok commands =>
        exact absurd ((value_read_eq_ok_iff word commands).mp outcome) (unread commands)
  · rintro mode fields reordered isMode areFields same rfl commands
    exact ⟨.reorder same isMode areFields,
      .reorder same.symm isMode (same.isField areFields)⟩

/-- A stroke, and the same one with its fields in another order. A code without a
meaning spoils a word with a mode that is known. -/
theorem ofWord_iff_reads_stroke :
    let stroke : List (Command Float) :=
      [.linear, .operation ⟨some (.integer 5 1), some (.integer (-2) 1),
        none, none⟩ (some .draw)]
    Reads "G01x5Y-2D01".toList stroke ∧ Reads "G01D01Y-2x5".toList stroke ∧
      (Program.ofWord "G01D01Y-2x5".toList).value = stroke ∧
      (Program.ofWord (K := Float) "G01D04".toList).value = [] := by
  intro stroke
  let fields : List Field := [('x', ['5']), ('Y', ['-', '2']), ('D', ['0', '1'])]
  have spelled :=
      ((ofWord_iff_reads "G01x5Y-2D01".toList).1 stroke).mp (by decide +kernel)
  have same : SameValues fields fields.reverse :=
    .of_perm (List.reverse_perm fields).symm (by decide)
  have moved :=
      ((ofWord_iff_reads "G01x5Y-2D01".toList).2.2.2 "G01".toList fields fields.reverse
    (.inr ⟨['0', '1'], rfl, rfl⟩) (by decide) same rfl stroke).mp spelled
  have reserved : (read (K := Float) "G01D04".toList).value =
      .error (.reservedAction 4) := by
    decide +kernel
  refine ⟨spelled, moved, (ofWord_iff_reads "G01D01Y-2x5".toList).2.1 stroke moved, ?_⟩
  refine (ofWord_iff_reads "G01D04".toList).2.2.1 fun commands reads => ?_
  have accepted := ((ofWord_iff_reads "G01D04".toList).1 commands).mpr reads
  rw [reserved] at accepted
  exact nomatch accepted

end Photoplot.Word
