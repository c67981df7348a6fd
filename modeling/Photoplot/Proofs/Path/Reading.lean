import Photoplot.Path.Command
import Photoplot.Proofs.Number.Decimal

/-! # Reading what was written

Commands that are spelled and read again are the same commands, as long as their
letters belong to the path grammar and no operand falls apart when it is read. -/

namespace Photoplot

/-! ## Words in a row -/

namespace Text

theorem pieces_eq_splitOn (separator : Char) (text : Text) :
    pieces separator text = text.splitOn separator := by
  induction text with
  | nil => rfl
  | cons c rest induction =>
      rw [pieces, List.splitOn_cons_eq_if_modifyHead, induction]
      by_cases same : c = separator
      · simp [same]
      · cases parts : rest.splitOn separator with
        | nil => exact absurd parts (List.splitOn_ne_nil _ _)
        | cons first others => simp [same]

theorem pieces_join {words : List Text} {separator : Char} (some : words ≠ [])
    (solid : ∀ word ∈ words, separator ∉ word) :
    pieces separator (join [separator] words) = words := by
  rw [pieces_eq_splitOn]
  exact List.splitOn_intercalate separator solid some

theorem join_append {first second : List Text} (separator : Text) (some : first ≠ [])
    (more : second ≠ []) :
    join separator (first ++ second) =
      join separator first ++ separator ++ join separator second := by
  induction first with
  | nil => exact absurd rfl some
  | cons word rest induction =>
      cases rest with
      | nil =>
          have cut : join separator (word :: second) =
              word ++ separator ++ join separator second :=
            List.intercalate_cons_of_ne_nil more
          simpa [join] using cut
      | cons next others =>
          rw [join] at induction ⊢
          rw [List.cons_append, List.intercalate_cons_of_ne_nil (by simp),
            induction (by simp)]
          simp only [join, List.intercalate_cons_cons, List.append_assoc]

/-- Texts joined in groups are the same as all of them joined at once. -/
theorem join_join (separator : Text) (groups : List (List Text))
    (some : ∀ group ∈ groups, group ≠ []) :
    join separator (groups.map (join separator)) = join separator groups.flatten := by
  induction groups with
  | nil => rfl
  | cons group rest induction =>
      have others := induction fun other member => some other (by simp [member])
      cases rest with
      | nil => simp [join]
      | cons next later =>
          have more : (next :: later).flatten ≠ [] := by
            have head := some next (by simp)
            simp [head]
          have first : join separator ((group :: next :: later).map (join separator)) =
              join separator group ++ separator ++
                join separator ((next :: later).map (join separator)) :=
            List.intercalate_cons_of_ne_nil (by simp)
          rw [first, others, ← join_append separator (some group (by simp)) more,
            ← List.flatten_cons]

end Text

namespace Path

/-! ## Texts in a row -/

/-- A blank ends the operand that is under way. -/
theorem tokens_append_blank (opened text rest : Text) :
    tokens opened (text ++ ' ' :: rest) = tokens opened text ++ tokens [] rest := by
  induction text generalizing opened with
  | nil =>
      have blank : isLetter ' ' = false ∧ isSeparator ' ' = true := by decide
      simp [tokens, blank]
  | cons c others induction =>
      simp only [List.cons_append, tokens, induction]
      split
      · simp
      split
      · simp
      split
      · simp
      · rfl

/-- Texts with blanks between them are read one after the other. -/
theorem tokens_join (texts : List Text) :
    tokens [] (Text.join [' '] texts) = texts.flatMap (tokens []) := by
  induction texts with
  | nil => rfl
  | cons text rest induction =>
      cases rest with
      | nil => simp [Text.join]
      | cons next others =>
          have cut : Text.join [' '] (text :: next :: others) =
              text ++ ' ' :: Text.join [' '] (next :: others) := by
            simp [Text.join, List.intercalate_cons_cons]
          rw [cut, tokens_append_blank, induction]
          rfl

/-! ## Operands that hold together -/

def Continues (opened : Text) : Text → Prop
  | [] => True
  | c :: rest =>
      (isLetter c = false ∧ isSeparator c = false ∧ startsOperand opened c = false) ∧
        Continues (c :: opened) rest

instance decidableContinues (opened : Text) :
    (text : Text) → Decidable (Continues opened text)
  | [] => isTrue trivial
  | c :: rest =>
      have := decidableContinues (c :: opened) rest
      inferInstanceAs (Decidable (_ ∧ Continues (c :: opened) rest))

def Solid (operand : Text) : Prop := operand ≠ [] ∧ Continues [] operand

instance (operand : Text) : Decidable (Solid operand) :=
    inferInstanceAs (Decidable (_ ∧ _))

theorem tokens_continues {opened text : Text} (rest : Text)
    (continues : Continues opened text) :
    tokens opened (text ++ rest) = tokens (text.reverse ++ opened) rest := by
  induction text generalizing opened with
  | nil => rfl
  | cons c others induction =>
      rcases continues with ⟨⟨notLetter, notSeparator, notStart⟩, later⟩
      rw [List.cons_append, tokens, notLetter, notSeparator, notStart]
      simp only [Bool.false_eq_true, if_false]
      rw [induction later]
      simp

theorem continues_append {opened first second : Text} :
    Continues opened (first ++ second) ↔
      Continues opened first ∧ Continues (first.reverse ++ opened) second := by
  induction first generalizing opened with
  | nil => simp [Continues]
  | cons c rest induction => simp [Continues, induction, and_assoc]

/-! ## Words -/

def IsWord (word : Text) : Prop := (∃ c, word = [c] ∧ isLetter c = true) ∨ Solid word

def token : Text → Token
  | [c] => if isLetter c then .letter c else .operand [c]
  | word => .operand word

theorem token_solid {operand : Text} (solid : Solid operand) :
    token operand = .operand operand := by
  rcases solid with ⟨some, continues⟩
  match operand, continues with
  | [], _ => exact absurd rfl some
  | [c], continues => simp [token, continues.1.1]
  | first :: second :: rest, _ => rfl

theorem tokens_word {word : Text} (isWord : IsWord word) :
    tokens [] word = [token word] := by
  rcases isWord with ⟨c, rfl, letter⟩ | solid
  · simp [tokens, token, letter, closed]
  · have isToken := token_solid solid
    rcases solid with ⟨some, continues⟩
    have read := tokens_continues [] continues
    rw [List.append_nil, List.append_nil] at read
    rw [read, tokens, isToken]
    simp [closed, some]

theorem tokens_join_words {words : List Text} (areWords : ∀ word ∈ words, IsWord word) :
    tokens [] (Text.join [' '] words) = words.map token := by
  rw [tokens_join]
  induction words with
  | nil => rfl
  | cons word rest induction =>
      have later := induction fun other member => areWords other (by simp [member])
      rw [List.flatMap_cons, tokens_word (areWords word (by simp)), later]
      rfl

/-! ## Commands -/

namespace Command

def Solid (command : Command) : Prop :=
  isLetter command.letter = true ∧ ∀ operand ∈ command.operands, Path.Solid operand

theorem Solid.isWord {command : Command} (solid : command.Solid) :
    ∀ word ∈ command.words, IsWord word := by
  intro word member
  rcases List.mem_cons.mp member with rfl | operand
  · exact .inl ⟨_, rfl, solid.1⟩
  · exact .inr (solid.2 word operand)

theorem Solid.map_token {command : Command} (solid : command.Solid) :
    command.words.map token =
      .letter command.letter :: command.operands.map .operand := by
  have operands : command.operands.map token = command.operands.map .operand :=
    List.map_congr_left fun operand member => token_solid (solid.2 operand member)
  rw [words, List.map_cons, operands]
  simp [token, solid.1]

end Command

theorem gather_operands (operands : List Text) (rest : List Token) :
    gather (operands.map .operand ++ rest) = gather rest := by
  induction operands with
  | nil => rfl
  | cons operand others induction => exact induction

theorem leadingOperands_append (operands : List Text) {rest : List Token}
    (ends : ∀ token ∈ rest.head?, ∃ c, token = .letter c) :
    leadingOperands (operands.map .operand ++ rest) = operands := by
  induction operands with
  | nil =>
      cases rest with
      | nil => rfl
      | cons token others =>
          rcases ends token rfl with ⟨c, rfl⟩
          rfl
  | cons operand others induction => simp [leadingOperands, induction]

theorem gather_commands (commands : List Command) :
    gather (commands.flatMap fun command =>
      .letter command.letter :: command.operands.map .operand) = commands := by
  induction commands with
  | nil => rfl
  | cons command rest induction =>
      have ends : ∀ token ∈ (rest.flatMap fun command =>
          Token.letter command.letter :: command.operands.map .operand).head?,
            ∃ c, token = .letter c := by
        intro token member
        cases rest with
        | nil => simp at member
        | cons next others =>
            simp only [List.flatMap_cons, List.cons_append, List.head?_cons,
              Option.mem_some_iff] at member
            exact ⟨next.letter, member.symm⟩
      rw [List.flatMap_cons, List.cons_append, gather, leadingOperands_append _ ends,
        gather_operands, induction]

theorem tokens_spell {commands : List Command}
    (solid : ∀ command ∈ commands, command.Solid) :
    tokens [] (Command.spell commands) = commands.flatMap fun command =>
      .letter command.letter :: command.operands.map .operand := by
  have areWords : ∀ word ∈ commands.flatMap Command.words, IsWord word := by
    intro word member
    rcases List.mem_flatMap.mp member with ⟨command, isCommand, isWord⟩
    exact (solid command isCommand).isWord word isWord
  rw [Command.spell, tokens_join_words areWords, List.map_flatMap]
  apply List.flatMap_congr
  intro command member
  exact (solid command member).map_token

theorem read_spell {commands : List Command}
    (solid : ∀ command ∈ commands, command.Solid) :
    read (Command.spell commands) = commands := by
  rw [read, tokens_spell solid, gather_commands]

/-! ## Decimals -/

theorem eq_digitOf_of_isDigit {c : Char} (isDigit : c.isDigit = true) :
    c = Digits.digitOf (c.toNat - '0'.toNat) := by
  have bounds : 48 ≤ c.toNat ∧ c.toNat ≤ 57 := by
    simpa [Char.isDigit, Char.le_def, UInt32.le_iff_toNat_le] using isDigit
  have small : (c.toNat - 48) % 10 = c.toNat - 48 := by omega
  have restored : 48 + (c.toNat - 48) = c.toNat := by omega
  simp [Digits.digitOf, small, restored]

/-- A digit goes on with whatever operand is under way. -/
theorem continues_digits {digits : Text} (opened : Text)
    (run : digits.all Char.isDigit = true) : Continues opened digits := by
  have plain : ∀ number < 10, isLetter (Digits.digitOf number) = false ∧
      isSeparator (Digits.digitOf number) = false ∧ Digits.digitOf number ≠ '-' ∧
      Digits.digitOf number ≠ '+' ∧ Digits.digitOf number ≠ '.' := by decide
  induction digits generalizing opened with
  | nil => trivial
  | cons c rest induction =>
      simp only [List.all_cons, Bool.and_eq_true] at run
      have isDigit := eq_digitOf_of_isDigit run.1
      rw [← Digits.digitOf_mod] at isDigit
      rcases plain _ (Nat.mod_lt _ (by decide)) with
          ⟨letter, separator, minus, plus, point⟩
      rw [← isDigit] at letter separator minus plus point
      refine ⟨⟨letter, separator, ?_⟩, induction _ run.2⟩
      simp [startsOperand, minus, plus, point]

theorem solid_run {digits : Text} (run : Digits.isRun digits = true) : Solid digits := by
  simp only [Digits.isRun, Bool.and_eq_true, Bool.not_eq_true',
    List.isEmpty_eq_false_iff] at run
  exact ⟨run.1, continues_digits [] run.2⟩

/-- A decimal has a sign at most at its head and one point at most. -/
theorem solid_decimal (decimal : Decimal) : Solid decimal.text := by
  have whole : decimal.whole.all Char.isDigit = true := by
    have run := decimal.wholeRun
    simp only [Digits.isRun, Bool.and_eq_true] at run
    exact run.2
  have noPoint : '.' ∉ decimal.whole := by
    intro member
    exact absurd (List.all_eq_true.mp whole _ member) (by decide)
  have unsigned : ∀ opened : Text, '.' ∉ opened → Continues opened decimal.unsigned := by
    intro opened absent
    rw [Decimal.unsigned, continues_append]
    refine ⟨continues_digits opened whole, ?_⟩
    split
    · trivial
    · have point : isLetter '.' = false ∧ isSeparator '.' = false := by decide
      refine ⟨⟨point.1, point.2, ?_⟩, continues_digits _ decimal.fractionDigits⟩
      simp [startsOperand, noPoint, absent]
  cases negative : decimal.negative with
  | true =>
      have minus : isLetter '-' = false ∧ isSeparator '-' = false := by decide
      simp only [Decimal.text, negative, Layout.signed, if_true]
      exact ⟨by simp, ⟨minus.1, minus.2, rfl⟩, unsigned ['-'] (by decide)⟩
  | false =>
      rcases decimal.whole_eq_cons with ⟨first, rest, isWhole, -, -⟩
      simp only [Decimal.text, negative, Layout.signed, Bool.false_eq_true, if_false]
      exact ⟨by simp [Decimal.unsigned, isWhole], unsigned [] (by simp)⟩

end Path

end Photoplot
