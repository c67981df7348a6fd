import Photoplot.Proofs.Binary64.Range
import Photoplot.Proofs.Source.WellFormed

/-! # Coordinates out of range

A coordinate with a decimal point stands for itself, however many digits it has. It is
never left without a value, but it is infinite if its numeral is out of the range of
floats; numbers with an implied point are bounded by their 64 bits. -/

namespace Photoplot

/-! ## Numerals with a point -/

namespace Numeral

/-- The words of values without digits have no point. -/
theorem readWord_of_point {negative : Bool} {text : Text} (point : '.' ∈ text) :
    readWord negative text = none := by
  have kept : '.' ∈ text.map Char.toLower := List.mem_map.mpr ⟨'.', point, rfl⟩
  have other : ∀ word : Text, '.' ∉ word → text.map Char.toLower ≠ word := by
    rintro word absent rfl
    exact absent kept
  have inf := other "inf".toList (by decide)
  have infinity := other "infinity".toList (by decide)
  have nan := other "nan".toList (by decide)
  simp only [readWord, inf, infinity, nan, decide_false, Bool.or_self, Bool.false_eq_true,
    if_false]

theorem exists_decimal_of_point {text : Text} {numeral : Numeral} (point : '.' ∈ text)
    (isRead : read text = some numeral) :
    ∃ negative digits exponent, numeral = .decimal negative digits exponent := by
  have unsigned : '.' ∈ (Digits.splitSign text).2 := by
    unfold Digits.splitSign
    split
    · simpa using point
    · simpa using point
    · exact point
  unfold read at isRead
  simp only at isRead
  split at isRead
  · exact ⟨_, _, _, (Option.some.inj isRead).symm⟩
  · rw [readWord_of_point unsigned] at isRead
    cases isRead

def IsInRange : Numeral → Prop
  | .decimal _ digits exponent => (digits * 10 ^ exponent : ℚ) <
      Binary64.overflowThreshold
  | _ => False

end Numeral

/-! ## Coordinate fields -/

namespace RawCoordinate

def IsFinite {K : Type} [Scalar K] : RawCoordinate K → Bool
  | .integer _ _ => true
  | .decimal value => Scalar.isFinite value

def IsInRange (written : Text) : Prop :=
  '.' ∈ written → ∃ numeral ∈ Numeral.read written, numeral.IsInRange

/-- A number with an implied point is bounded. -/
theorem natAbs_le_of_read? {K : Type} [Scalar K] {written : Text} {value : ℤ} {digits : ℕ}
    (isRead : read? (K := K) written = some (.integer value digits)) :
    value.natAbs ≤ 2 ^ 63 ∧ '.' ∉ written := by
  unfold read? at isRead
  split at isRead
  · obtain ⟨number, -, other⟩ := Option.map_eq_some_iff.mp isRead
    cases other
  rename_i unpointed
  simp only [Option.ite_none_right_eq_some] at isRead
  obtain ⟨number, isNumber, same⟩ := Option.map_eq_some_iff.mp isRead.2
  cases same
  refine ⟨?_, by simpa using unpointed⟩
  unfold Digits.readSigned at isNumber
  simp only [Nat.one_shiftLeft] at isNumber
  split_ifs at isNumber
  all_goals
    cases isNumber
    omega

/-- A number with a point is a decimal numeral. -/
theorem exists_decimal_of_read? {written : Text} {value : Float}
    (isRead : read? written = some (.decimal value)) :
    '.' ∈ written ∧ ∃ negative digits exponent,
      Numeral.read written = some (.decimal negative digits exponent) ∧
        value = Binary64.ofDecimal negative digits exponent := by
  unfold read? at isRead
  split at isRead
  · rename_i point
    have isPoint : '.' ∈ written := by simpa using point
    obtain ⟨number, isNumber, same⟩ := Option.map_eq_some_iff.mp isRead
    cases same
    obtain ⟨numeral, isNumeral, isValue⟩ := Option.bind_eq_some_iff.mp isNumber
    obtain ⟨negative, digits, exponent, rfl⟩ :=
        Numeral.exists_decimal_of_point isPoint isNumeral
    exact ⟨isPoint, negative, digits, exponent, isNumeral, (Option.some.inj isValue).symm⟩
  · simp only [Option.ite_none_right_eq_some] at isRead
    obtain ⟨number, -, other⟩ := Option.map_eq_some_iff.mp isRead.2
    cases other

theorem isFinite_iff {written : Text} {raw : RawCoordinate Float}
    (isRead : read? written = some raw) : raw.IsFinite = true ↔ IsInRange written := by
  cases raw with
  | integer value digits =>
      exact iff_of_true rfl fun point => absurd point (natAbs_le_of_read? isRead).2
  | decimal value =>
      obtain ⟨point, negative, digits, exponent, isNumeral, rfl⟩ :=
          exists_decimal_of_read? isRead
      change (Binary64.ofDecimal negative digits exponent).isFinite = true ↔ _
      rw [Binary64.isFinite_ofDecimal_iff, IsInRange, isNumeral]
      simp [point, Numeral.IsInRange]

end RawCoordinate

namespace CoordinateFields

variable {K : Type}

def given (fields : CoordinateFields K) : List (RawCoordinate K) :=
  fields.x.toList ++ fields.y.toList ++ fields.i.toList ++ fields.j.toList

end CoordinateFields

def CoordinateFormat.IsNarrow (format : CoordinateFormat) : Prop :=
  ∀ axis, (format.counts axis).integer ≤ 9 ∧ (format.counts axis).decimal ≤ 9

/-- The numbers of the command were written in the text: each coordinate was read from a
part of it, and each count of a format is a digit. -/
def Command.IsWritten {K : Type} [Scalar K] (text : Text) : Command K → Prop
  | .format declared => declared.IsNarrow
  | .operation fields _ =>
      ∀ raw ∈ fields.given,
        ∃ written, written <:+: text ∧ RawCoordinate.read? written = some raw
  | _ => True

theorem Command.IsWritten.mono {K : Type} [Scalar K] {part text : Text}
    {command : Command K} (isWritten : command.IsWritten part) (inside : part <:+: text) :
    command.IsWritten text := by
  cases command with
  | operation fields action =>
      intro raw isRaw
      obtain ⟨written, isPart, isRead⟩ := isWritten raw isRaw
      exact ⟨written, isPart.trans inside, isRead⟩
  | format declared => exact isWritten
  | _ => trivial

/-! ## Words -/

namespace Word

variable {K : Type} [Scalar K]

theorem isInfix_spell {fields : List Field} {field : Field} (member : field ∈ fields) :
    field.2 <:+: spell fields := by
  obtain ⟨before, after, rfl⟩ := List.append_of_mem member
  refine ⟨spell before ++ [field.1], spell after, ?_⟩
  simp [spell]

/-- Every coordinate comes from a value in the word. -/
theorem exists_of_mem_coordinatesOf {fields : List Field} {raw : RawCoordinate K}
    (member : raw ∈ (coordinatesOf fields).given) :
    ∃ written, written <:+: spell fields ∧ RawCoordinate.read? written = some raw := by
  have found : ∀ letter,
      raw ∈ ((lastValue? letter fields).bind RawCoordinate.read?).toList →
      ∃ written, written <:+: spell fields ∧ RawCoordinate.read? written = some raw := by
    intro letter isLast
    obtain ⟨written, last, isRead⟩ :=
        Option.bind_eq_some_iff.mp (Option.mem_toList.mp isLast)
    obtain ⟨field, isField, -, rfl⟩ := exists_of_lastValue? last
    exact ⟨field.2, isInfix_spell isField, isRead⟩
  simp only [CoordinateFields.given, coordinatesOf, List.mem_append] at member
  rcases member with ((x | y) | i) | j
  · exact found _ x
  · exact found _ y
  · exact found _ i
  · exact found _ j

theorem Means.isWritten {fields : List Field} {commands : List (Command K)}
    (means : Means fields commands) : ∀ command ∈ commands,
    command.IsWritten (spell fields) := by
  cases means with
  | nothing => simp
  | repeated some noCode =>
      rw [List.forall_mem_singleton]
      exact fun raw => exists_of_mem_coordinatesOf
  | action last isCode =>
      rw [List.forall_mem_singleton]
      exact fun raw => exists_of_mem_coordinatesOf
  | select last isCode large alone => simp [Command.IsWritten]

theorem modeCommand?_isWritten (word : Text) (code : ℕ) :
    ∀ command ∈ (modeCommand? (K := K) code).toList, command.IsWritten word := by
  unfold modeCommand?
  split <;> simp [Command.IsWritten]

theorem Body.isWritten {text : Text} {commands : List (Command K)}
    (body : Body text commands) :
    ∀ command ∈ commands, command.IsWritten text := by
  cases body with
  | ending isCode => split <;> simp [Command.IsWritten]
  | fields areRead means => exact means.isWritten

theorem Reads.isWritten {word : Text} {commands : List (Command K)}
    (reads : Reads word commands) : ∀ command ∈ commands, command.IsWritten word := by
  cases reads with
  | plain body => exact body.isWritten
  | @mode digits text others run small body =>
      have inside : text <:+: 'G' :: (digits ++ text) :=
        (List.suffix_append ('G' :: digits) text).isInfix
      rw [List.forall_mem_append]
      exact ⟨modeCommand?_isWritten _ _,
        fun command member => (body.isWritten command member).mono inside⟩

end Word

/-! ## Layers -/

namespace Parameter

theorem readCounts_narrow {axis : Char} {digits : Text} {counts : DigitCounts}
    (isRead : readCounts axis digits = .ok counts) :
    counts.integer ≤ 9 ∧ counts.decimal ≤ 9 := by
  have single : ∀ c : Char, c.isDigit = true → Digits.value [c] ≤ 9 := by
    intro c isDigit
    rw [Path.eq_digitOf_of_isDigit isDigit, Digits.value_digitOf]
    omega
  unfold readCounts at isRead
  split at isRead
  · rename_i integer decimal
    split at isRead
    · rename_i areDigits
      rw [Bool.and_eq_true] at areDigits
      rcases Except.ok.inj isRead with rfl
      exact ⟨single integer areDigits.1, single decimal areDigits.2⟩
    · cases isRead
  · cases isRead

theorem readFormat_narrow {text : Text} {format : CoordinateFormat}
    (isRead : readFormat text = .ok format) : format.IsNarrow := by
  unfold readFormat at isRead
  split at isRead
  · split at isRead
    · obtain ⟨x, isX, later⟩ := bind_eq_ok_iff.mp isRead
      obtain ⟨y, isY, last⟩ := bind_eq_ok_iff.mp later
      rcases Except.ok.inj last with rfl
      intro axis
      cases axis with
      | x => exact readCounts_narrow isX
      | y => exact readCounts_narrow isY
    · cases isRead
  · cases isRead

variable {K : Type} [Scalar K]

theorem exists_of_readAperture {content : Text} {command : Command K}
    (isRead : readAperture content = .ok command) :
    ∃ code shape, command = .defineAperture code shape := by
  unfold readAperture at isRead
  split at isRead
  · simp only at isRead
    split at isRead
    · cases isRead
    · split at isRead
      · cases isRead
      · split at isRead
        · cases isRead
        · obtain ⟨shape, -, same⟩ := map_eq_ok_iff.mp isRead
          exact ⟨_, shape, same.symm⟩
  · cases isRead

theorem read_isWritten {content : Text} {command : Command K}
    (isRead : read content = .ok (some command)) : command.IsWritten content := by
  unfold read at isRead
  split at isRead
  · obtain ⟨format, isFormat, same⟩ := map_eq_ok_iff.mp isRead
    rcases Option.some.inj same with rfl
    exact readFormat_narrow isFormat
  -- units and polarities
  iterate 4
    split at isRead
    · rcases Option.some.inj (Except.ok.inj isRead) with rfl
      trivial
  split at isRead
  · cases isRead
  split at isRead
  · obtain ⟨aperture, isAperture, same⟩ := map_eq_ok_iff.mp isRead
    obtain ⟨code, shape, rfl⟩ := exists_of_readAperture isAperture
    rcases Option.some.inj same with rfl
    trivial
  · cases isRead

end Parameter

theorem Program.exists_isWritten {K : Type} [Scalar K] {blocks : List Block}
    {command : Command K}
    (member : command ∈ (ofBlocks blocks).value) : ∃ text, command.IsWritten text := by
  cases isGiven_of_mem member with
  | word reads inside => exact ⟨_, reads.isWritten command inside⟩
  | parameter isRead => exact ⟨_, Parameter.read_isWritten isRead⟩
  | template => exact ⟨[], trivial⟩

end Photoplot
