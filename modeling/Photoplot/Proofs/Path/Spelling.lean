import Photoplot.Path.Mirrored
import Photoplot.Proofs.Path.Reading
import Photoplot.Scalar.Binary64

/-! # Paths in compact spelling

Between two numbers a path may have separators, or nothing if the second number shows
where it begins: by a sign, or by a point that cannot belong to the first one. Every such
spelling is read as the commands that were written, up to one case: a point right behind
an exponent does not begin an operand, and the two numbers are read as one. -/

namespace Photoplot.Path

/-! ## Numbers -/

def IsSign (sign : Text) : Prop := sign = [] ∨ sign = ['-'] ∨ sign = ['+']

instance (sign : Text) : Decidable (IsSign sign) := inferInstanceAs (Decidable (_ ∨ _))

structure Exponent where
  mark : Char
  sign : Text
  digits : Text
  isMark : isExponentMark mark = true
  isSign : IsSign sign
  isRun : Digits.isRun digits = true

def Exponent.text (exponent : Exponent) : Text :=
  exponent.mark :: (exponent.sign ++ exponent.digits)

/-- A number as the path grammar has it: digits with a fraction or without, or a fraction
alone, a sign in front and an exponent behind. -/
structure Number where
  sign : Text
  whole : Text
  fraction : Option Text
  exponent : Option Exponent
  isSign : IsSign sign
  wholeDigits : whole.all Char.isDigit = true
  fractionDigits : ∀ digits ∈ fraction, digits.all Char.isDigit = true
  someDigit : whole ≠ [] ∨ ∃ digits ∈ fraction, digits ≠ []

namespace Number

def fractionText (number : Number) : Text :=
  match number.fraction with
  | none => []
  | some digits => '.' :: digits

def exponentText (number : Number) : Text :=
  match number.exponent with
  | none => []
  | some exponent => exponent.text

def unsigned (number : Number) : Text :=
  number.whole ++ (number.fractionText ++ number.exponentText)

def text (number : Number) : Text := number.sign ++ number.unsigned

def Pointed (number : Number) : Prop := number.sign = [] ∧ number.whole = []

instance (number : Number) : Decidable number.Pointed :=
    inferInstanceAs (Decidable (_ ∧ _))

end Number

def Scaled (operand : Text) : Prop := operand.any isExponentMark = true

instance (operand : Text) : Decidable (Scaled operand) :=
    inferInstanceAs (Decidable (_ = true))

/-! ## Characters of a number -/

theorem not_mark_of_isDigit {c : Char} (digit : c.isDigit = true) :
    isExponentMark c = false := by
  have plain : ∀ number < 10, isExponentMark (Digits.digitOf number) = false := by decide
  rw [eq_digitOf_of_isDigit digit, ← Digits.digitOf_mod]
  exact plain _ (Nat.mod_lt _ (by decide))

theorem not_scaled_digits {digits : Text} (run : digits.all Char.isDigit = true) :
    ¬Scaled digits := by
  simp only [Scaled, List.any_eq_true, not_exists, not_and, Bool.not_eq_true]
  intro c member
  exact not_mark_of_isDigit (List.all_eq_true.mp run c member)

theorem not_scaled_sign {sign : Text} (isSign : IsSign sign) : ¬Scaled sign := by
  rcases isSign with rfl | rfl | rfl <;> decide

theorem scaled_append {first second : Text} :
    Scaled (first ++ second) ↔ Scaled first ∨ Scaled second := by
  simp [Scaled]

theorem scaled_reverse {operand : Text} : Scaled operand.reverse ↔ Scaled operand := by
  simp [Scaled]

namespace Number

theorem not_scaled_fractionText (number : Number) : ¬Scaled number.fractionText := by
  unfold fractionText
  split
  · decide
  · rename_i digits isFraction
    have run := not_scaled_digits (number.fractionDigits digits isFraction)
    have point : isExponentMark '.' = false := by decide
    simpa [Scaled, point] using run

theorem scaled_exponentText (number : Number) :
    Scaled number.exponentText ↔ number.exponent.isSome = true := by
  unfold exponentText
  cases number.exponent with
  | none => decide
  | some exponent => simp [Scaled, Exponent.text, exponent.isMark]

/-- Only an exponent has a mark. -/
theorem scaled_text (number : Number) :
    Scaled number.text ↔ number.exponent.isSome = true := by
  simp only [text, unsigned, scaled_append, number.scaled_exponentText,
    not_scaled_sign number.isSign, not_scaled_digits number.wholeDigits,
    number.not_scaled_fractionText, false_or]

theorem point_mem_text {number : Number} (some : number.fraction.isSome = true) :
    '.' ∈ number.text := by
  obtain ⟨digits, isFraction⟩ := Option.isSome_iff_exists.mp some
  simp [text, unsigned, fractionText, isFraction]

end Number

/-- A sign behind the operand begins the next one. -/
def Complete (operand : Text) : Prop :=
  ∃ last ∈ operand.getLast?, isExponentMark last = false

theorem complete_append {operand : Text} (before : Text) (complete : Complete operand) :
    Complete (before ++ operand) := by
  obtain ⟨last, isLast, plain⟩ := complete
  refine ⟨last, ?_, plain⟩
  rw [List.getLast?_append, isLast]
  rfl

theorem complete_of_not_scaled {operand : Text} (some : operand ≠ [])
    (plain : ¬Scaled operand) :
    Complete operand := by
  refine ⟨operand.getLast some, List.getLast?_eq_some_getLast some, ?_⟩
  simp only [Scaled, List.any_eq_true, not_exists, not_and, Bool.not_eq_true] at plain
  exact plain _ (List.getLast_mem some)

theorem complete_run {digits : Text} (run : Digits.isRun digits = true) :
    Complete digits := by
  simp only [Digits.isRun, Bool.and_eq_true, Bool.not_eq_true',
    List.isEmpty_eq_false_iff] at run
  exact complete_of_not_scaled run.1 (not_scaled_digits run.2)

theorem Number.text_ne_nil (number : Number) : number.text ≠ [] := by
  rcases number.someDigit with whole | ⟨digits, isFraction, -⟩
  · simp [text, unsigned, whole]
  · simp [text, unsigned, fractionText, Option.mem_def.mp isFraction]

theorem Number.complete_text (number : Number) : Complete number.text := by
  cases isExponent : number.exponent with
  | none =>
      refine complete_of_not_scaled number.text_ne_nil ?_
      rw [number.scaled_text, isExponent]
      decide
  | some exponent =>
      have split : number.text =
          (number.sign ++ (number.whole ++ (number.fractionText ++
            exponent.mark :: exponent.sign))) ++ exponent.digits := by
        simp [text, unsigned, exponentText, isExponent, Exponent.text]
      rw [split]
      exact complete_append _ (complete_run exponent.isRun)

/-! ## A number holds together -/

theorem Exponent.continues (exponent : Exponent) (opened : Text) :
    Continues opened exponent.text := by
  have mark : isLetter exponent.mark = false ∧ isSeparator exponent.mark = false ∧
      startsOperand opened exponent.mark = false := by
    have isMark : exponent.mark = 'e' ∨ exponent.mark = 'E' := by
      simpa [isExponentMark] using exponent.isMark
    rcases isMark with eq | eq <;> rw [eq] <;> exact ⟨by decide, by decide, rfl⟩
  have digits : exponent.digits.all Char.isDigit = true := by
    have run := exponent.isRun
    simp only [Digits.isRun, Bool.and_eq_true] at run
    exact run.2
  refine ⟨mark, ?_⟩
  rcases exponent.isSign with none | minus | plus
  · simpa [none] using continues_digits _ digits
  · rw [minus]
    exact ⟨⟨by decide, by decide, by simp [startsOperand, exponent.isMark]⟩,
      continues_digits _ digits⟩
  · rw [plus]
    exact ⟨⟨by decide, by decide, by simp [startsOperand, exponent.isMark]⟩,
      continues_digits _ digits⟩

namespace Number

/-- The digits of a number go on with what is open, unless its point is a second one and
comes without an exponent in front of it. -/
theorem continues_unsigned (number : Number) {opened : Text}
    (fits : '.' ∈ opened → Scaled opened) : Continues opened number.unsigned := by
  rw [unsigned, continues_append, continues_append]
  refine ⟨continues_digits opened number.wholeDigits, ?_, ?_⟩
  · unfold fractionText
    split
    · trivial
    · rename_i digits isFraction
      refine ⟨⟨by decide, by decide, ?_⟩,
        continues_digits _ (number.fractionDigits digits isFraction)⟩
      have noPoint : '.' ∉ number.whole := by
        intro member
        exact absurd (List.all_eq_true.mp number.wholeDigits _ member) (by decide)
      by_cases point : '.' ∈ opened
      · have scaled : opened.any isExponentMark = true := fits point
        simp [startsOperand, scaled]
      · simp [startsOperand, noPoint, point]
  · unfold exponentText
    split
    · trivial
    · rename_i exponent isExponent
      exact exponent.continues _

theorem head?_of_pointed {number : Number} (pointed : number.Pointed) :
    number.text.head? = some '.' := by
  obtain ⟨sign, whole⟩ := pointed
  rcases number.someDigit with some | ⟨digits, isFraction, -⟩
  · exact absurd whole some
  · simp [text, unsigned, fractionText, sign, whole, Option.mem_def.mp isFraction]

theorem continues_text (number : Number) : Continues [] number.text := by
  have unsigned := @number.continues_unsigned [] (by simp)
  rcases number.isSign with none | minus | plus
  · simpa [text, none] using unsigned
  · rw [text, minus]
    exact ⟨⟨by decide, by decide, rfl⟩, number.continues_unsigned (by decide)⟩
  · rw [text, plus]
    exact ⟨⟨by decide, by decide, rfl⟩, number.continues_unsigned (by decide)⟩

end Number

/-! ## Spellings -/

structure Placed where
  gap : Text
  number : Number
  separators : gap.all isSeparator = true

namespace Placed

def text (placed : Placed) : Text := placed.gap ++ placed.number.text

/-- Without separators the second number shows where it begins: by a sign, or by a point
that cannot belong to the first one. -/
def Apart (first second : Placed) : Prop :=
  second.gap ≠ [] ∨ second.number.sign ≠ [] ∨
    (second.number.Pointed ∧
      (first.number.fraction.isSome = true ∨ first.number.exponent.isSome = true))

/-- The point of the second number stands right behind an exponent. -/
def Hidden (first second : Placed) : Prop :=
  second.gap = [] ∧ second.number.Pointed ∧ first.number.exponent.isSome = true

instance (first second : Placed) : Decidable (Apart first second) :=
  inferInstanceAs (Decidable (_ ∨ _))

instance (first second : Placed) : Decidable (Hidden first second) :=
  inferInstanceAs (Decidable (_ ∧ _))

end Placed

structure Line where
  letter : Char
  operands : List Placed
  after : Text
  isLetter : isLetter letter = true
  apart : operands.IsChain Placed.Apart
  separators : after.all isSeparator = true

namespace Line

def text (line : Line) : Text :=
    line.letter :: (line.operands.flatMap Placed.text ++ line.after)

def command (line : Line) : Command := ⟨line.letter, line.operands.map (·.number.text)⟩

def Plain (line : Line) : Prop :=
  line.operands.IsChain fun first second => ¬Placed.Hidden first second

end Line

structure Page where
  before : Text
  lines : List Line
  separators : before.all isSeparator = true

namespace Page

def text (page : Page) : Text := page.before ++ page.lines.flatMap Line.text

def commands (page : Page) : List Command := page.lines.map Line.command

def Plain (page : Page) : Prop := ∀ line ∈ page.lines, line.Plain

end Page

/-! ## Operands as they are read -/

/-- A point right behind an operand with an exponent goes on with it. -/
def glued (opened : Text) : List Placed → List Text
  | [] => [opened]
  | next :: rest =>
      if next.gap = [] ∧ next.number.Pointed ∧ Scaled opened then
        glued (opened ++ next.number.text) rest
      else opened :: glued next.number.text rest

def operandsRead : List Placed → List Text
  | [] => []
  | first :: rest => glued first.number.text rest

theorem length_glued_le (opened : Text) (rest : List Placed) :
    (glued opened rest).length ≤ rest.length + 1 := by
  induction rest generalizing opened with
  | nil => simp [glued]
  | cons next others induction =>
      rw [glued]
      split
      · exact (induction _).trans (by simp)
      · simpa using induction next.number.text

/-- Nothing is glued unless a point is hidden. -/
theorem glued_eq_iff (first : Placed) (rest : List Placed) :
    glued first.number.text rest = (first :: rest).map (·.number.text) ↔
      (first :: rest).IsChain fun first second => ¬Placed.Hidden first second := by
  induction rest generalizing first with
  | nil => simp [glued]
  | cons next others induction =>
      have same : (next.gap = [] ∧ next.number.Pointed ∧ Scaled first.number.text) ↔
          Placed.Hidden first next := by
        rw [Placed.Hidden, Number.scaled_text]
      rw [glued, List.isChain_cons_cons]
      by_cases hidden : Placed.Hidden first next
      · rw [if_pos (same.mpr hidden)]
        simp only [hidden, not_true, false_and, iff_false]
        intro equal
        have fewer := length_glued_le (first.number.text ++ next.number.text) others
        rw [equal] at fewer
        simp at fewer
      · rw [if_neg (same.not.mpr hidden)]
        simp only [hidden, not_false_iff, true_and, ← induction next, List.map_cons,
          List.cons.injEq]

theorem operandsRead_eq_iff (operands : List Placed) :
    operandsRead operands = operands.map (·.number.text) ↔
      operands.IsChain fun first second => ¬Placed.Hidden first second := by
  cases operands with
  | nil => simp [operandsRead]
  | cons first rest => exact glued_eq_iff first rest

/-! ## Reading a spelling -/

def Ends (text : Text) : Prop := ∀ c ∈ text.head?, isLetter c = true

theorem not_isLetter_of_isSeparator {c : Char} (separator : isSeparator c = true) :
    isLetter c = false := by
  have one : c = ' ' ∨ c = ',' ∨ c = '\n' ∨ c = '\r' ∨ c = '\t' := by
    simpa [isSeparator] using separator
  rcases one with rfl | rfl | rfl | rfl | rfl <;> decide

/-- Separators end the operand that is open. -/
theorem tokens_gap {gap : Text} (opened rest : Text) (some : gap ≠ [])
    (separators : gap.all isSeparator = true) :
    tokens opened (gap ++ rest) = closed opened ++ tokens [] rest := by
  induction gap generalizing opened with
  | nil => exact absurd rfl some
  | cons c others induction =>
      simp only [List.all_cons, Bool.and_eq_true] at separators
      have cut : tokens opened (c :: others ++ rest) =
          closed opened ++ tokens [] (others ++ rest) := by
        simp [tokens, not_isLetter_of_isSeparator separators.1, separators.1]
      rw [cut]
      cases others with
      | nil => rfl
      | cons next more => rw [induction [] (List.cons_ne_nil next more) separators.2]; rfl

theorem tokens_separators {gap : Text} (rest : Text)
    (separators : gap.all isSeparator = true) :
    tokens [] (gap ++ rest) = tokens [] rest := by
  cases gap with
  | nil => rfl
  | cons c others => exact tokens_gap [] rest (List.cons_ne_nil c others) separators

/-- What is open ends with the command, whether separators follow or not. -/
theorem tokens_after {after rest : Text} (opened : Text)
    (separators : after.all isSeparator = true) (ends : Ends rest) :
    tokens opened (after ++ rest) = closed opened ++ tokens [] rest := by
  cases after with
  | cons c others => exact tokens_gap opened rest (List.cons_ne_nil c others) separators
  | nil =>
      cases rest with
      | nil => simp [tokens, closed]
      | cons letter others =>
          have isLetter : isLetter letter = true := ends letter rfl
          simp [tokens, isLetter, closed]

/-- An operand that shows its beginning ends the one that is open. -/
theorem tokens_starts {opened text : Text} (rest : Text) (continues : Continues [] text)
    (starts : ∃ c ∈ text.head?, startsOperand opened c = true) :
    tokens opened (text ++ rest) = closed opened ++ tokens text.reverse rest := by
  obtain ⟨c, head, start⟩ := starts
  obtain ⟨others, rfl⟩ : ∃ others, text = c :: others := List.head?_eq_some_iff.mp head
  obtain ⟨⟨notLetter, notSeparator, -⟩, later⟩ := continues
  have read := tokens_continues rest later
  rw [List.cons_append, tokens, notLetter, notSeparator, start, List.reverse_cons, ← read]
  simp

theorem closed_reverse {operand : Text} (some : operand ≠ []) :
    closed operand.reverse = [.operand operand] := by
  simp [closed, some]

theorem startsOperand_sign {operand sign : Text} (complete : Complete operand)
    (isSign : IsSign sign) (some : sign ≠ []) :
    ∃ c ∈ sign.head?, startsOperand operand.reverse c = true := by
  obtain ⟨last, isLast, plain⟩ := complete
  obtain ⟨others, reversed⟩ : ∃ others, operand.reverse = last :: others := by
    rw [← List.head?_eq_some_iff, List.head?_reverse]
    exact isLast
  rcases isSign with none | rfl | rfl
  · exact absurd none some
  · exact ⟨'-', rfl, by simp [reversed, startsOperand, plain]⟩
  · exact ⟨'+', rfl, by simp [reversed, startsOperand, plain]⟩

/-- Behind an open operand that ends with a number, the next number goes on with it or
begins an operand. -/
theorem tokens_placed {before rest : Text} {first next : Placed}
    (apart : Placed.Apart first next) :
    let opened := before ++ first.number.text
    tokens opened.reverse (next.text ++ rest) =
      if next.gap = [] ∧ next.number.Pointed ∧ Scaled opened then
        tokens (opened ++ next.number.text).reverse rest
      else .operand opened :: tokens next.number.text.reverse rest := by
  intro opened
  have some : opened ≠ [] := List.append_ne_nil_of_right_ne_nil _ first.number.text_ne_nil
  have continues := next.number.continues_text
  by_cases gap : next.gap = []
  swap
  · have read := tokens_continues rest continues
    rw [if_neg (fun glue => gap glue.1), Placed.text, List.append_assoc,
      tokens_gap _ _ gap next.separators, closed_reverse some, read, List.append_nil]
    rfl
  rw [Placed.text, gap, List.nil_append]
  by_cases sign : next.number.sign = []
  swap
  · have starts : ∃ c ∈ next.number.text.head?,
        startsOperand opened.reverse c = true := by
      obtain ⟨c, head, start⟩ := startsOperand_sign
        (complete_append before first.number.complete_text) next.number.isSign sign
      refine ⟨c, ?_, start⟩
      rw [Number.text, List.head?_append, head]
      rfl
    rw [if_neg (fun glue => sign glue.2.1.1), tokens_starts rest continues starts,
      closed_reverse some]
    rfl
  obtain ⟨pointed, fits⟩ : next.number.Pointed ∧
      (first.number.fraction.isSome = true ∨ first.number.exponent.isSome = true) := by
    rcases apart with other | other | pointed
    · exact absurd gap other
    · exact absurd sign other
    · exact pointed
  by_cases scaled : Scaled opened
  · have text : next.number.text = next.number.unsigned := by simp [Number.text, sign]
    have goesOn : Continues opened.reverse next.number.text := by
      rw [text]
      exact next.number.continues_unsigned fun _ => scaled_reverse.mpr scaled
    have reversed : (opened ++ next.number.text).reverse =
        next.number.text.reverse ++ opened.reverse := List.reverse_append
    rw [if_pos ⟨rfl, pointed, scaled⟩, tokens_continues rest goesOn, reversed]
  · have noExponent : ¬first.number.exponent.isSome = true := by
      rw [← Number.scaled_text]
      exact fun mark => scaled (scaled_append.mpr (.inr mark))
    have point : '.' ∈ opened :=
      List.mem_append_right _ (Number.point_mem_text (fits.resolve_right noExponent))
    have starts : ∃ c ∈ next.number.text.head?,
        startsOperand opened.reverse c = true := by
      refine ⟨'.', Number.head?_of_pointed pointed, ?_⟩
      have plain : opened.reverse.any isExponentMark = false :=
        eq_false_of_ne_true (scaled_reverse.not.mpr scaled)
      simp only [startsOperand, List.contains_eq_mem, List.mem_reverse, point, plain]
      rfl
    rw [if_neg (fun glue => scaled glue.2.2), tokens_starts rest continues starts,
      closed_reverse some]
    rfl

theorem tokens_glued {before after more : Text} {first : Placed} {rest : List Placed}
    (apart : (first :: rest).IsChain Placed.Apart)
    (separators : after.all isSeparator = true) (ends : Ends more) :
    let opened := before ++ first.number.text
    tokens opened.reverse (rest.flatMap Placed.text ++ (after ++ more)) =
      (glued opened rest).map .operand ++ tokens [] more := by
  intro opened
  have some : opened ≠ [] := List.append_ne_nil_of_right_ne_nil _ first.number.text_ne_nil
  induction rest generalizing before first with
  | nil =>
      rw [List.flatMap_nil, List.nil_append, tokens_after _ separators ends,
        closed_reverse some]
      rfl
  | cons next others induction =>
      obtain ⟨here, later⟩ := List.isChain_cons_cons.mp apart
      rw [List.flatMap_cons, List.append_assoc, tokens_placed here, glued]
      split
      · exact induction later
          (List.append_ne_nil_of_right_ne_nil _ next.number.text_ne_nil)
      · have fresh := @induction [] next later next.number.text_ne_nil
        rw [List.nil_append] at fresh
        rw [fresh]
        rfl

def Line.commandRead (line : Line) : Command := ⟨line.letter, operandsRead line.operands⟩

theorem tokens_line {line : Line} {more : Text} (ends : Ends more) :
    tokens [] (line.text ++ more) =
      .letter line.letter :: line.commandRead.operands.map .operand ++
      tokens [] more := by
  have behind : tokens [] (line.operands.flatMap Placed.text ++ (line.after ++ more)) =
      (operandsRead line.operands).map .operand ++ tokens [] more := by
    have apart := line.apart
    cases operands : line.operands with
    | nil => exact tokens_after [] line.separators ends
    | cons first rest =>
        rw [operands] at apart
        have read :=
            @tokens_glued [] line.after more first rest apart line.separators ends
        rw [List.nil_append] at read
        rw [List.flatMap_cons, List.append_assoc, Placed.text, List.append_assoc,
          tokens_separators _ first.separators,
          tokens_continues _ first.number.continues_text, List.append_nil, read]
        rfl
  simp [Line.text, tokens, line.isLetter, closed, behind, Line.commandRead]

theorem ends_lines (lines : List Line) : Ends (lines.flatMap Line.text) := by
  cases lines with
  | nil => intro c head; cases head
  | cons line rest =>
      intro c head
      have first : c = line.letter := by simpa [Line.text, eq_comm] using head
      rw [first]
      exact line.isLetter

theorem tokens_lines (lines : List Line) :
    tokens [] (lines.flatMap Line.text) =
      (lines.map Line.commandRead).flatMap fun command =>
      .letter command.letter :: command.operands.map .operand := by
  induction lines with
  | nil => rfl
  | cons line rest induction =>
      rw [List.flatMap_cons, tokens_line (ends_lines rest), induction]
      rfl

/-- What is read off a page: the operands of each command, hidden points glued. -/
theorem read_text (page : Page) : read page.text = page.lines.map Line.commandRead := by
  rw [read, Page.text, tokens_separators _ page.separators, tokens_lines, gather_commands]

theorem Line.commandRead_eq_iff (line : Line) :
    line.commandRead = line.command ↔ line.Plain := by
  rw [commandRead, command, Command.mk.injEq, operandsRead_eq_iff]
  simp [Plain]

/-- A spelling is read as the commands that were written exactly if no point is hidden
behind an exponent. All such spellings of the same commands are mirrored alike. -/
theorem read_iff_plain {K : Type} [Scalar K] (page : Page) :
    (read page.text = page.commands ↔ page.Plain) ∧
      (page.Plain → ∀ box : Box K, box.isEmpty = false →
        mirror page.text box =
        Command.spell (mirrorCommands box.centerX page.commands)) := by
  have restored : read page.text = page.commands ↔ page.Plain := by
    rw [read_text, Page.commands, List.map_inj_left]
    exact forall₂_congr fun line _ => line.commandRead_eq_iff
  refine ⟨restored, fun plain box some => ?_⟩
  rw [mirror, some, restored.mpr plain]
  rfl

def Page.move (operands : List Placed) (apart : operands.IsChain Placed.Apart) : Page :=
  ⟨[], [⟨'M', operands, [], rfl, apart, rfl⟩], rfl⟩

def tenth : Exponent := ⟨'e', ['-'], ['1'], rfl, by decide, rfl⟩

theorem all_isDigit_nil : ([] : Text).all Char.isDigit = true := rfl

def compactPage : Page :=
  .move
    [⟨[], ⟨[], ['1'], none, none, by decide, rfl, by decide, by decide⟩, rfl⟩,
      ⟨[], ⟨['-'], ['2'], some ['5'], none, by decide, rfl, by decide, by decide⟩, rfl⟩,
      ⟨[], ⟨[], [], some ['5'], some tenth, by decide, all_isDigit_nil, by
        decide, by decide⟩, rfl⟩,
      ⟨[','], ⟨[], [], some ['5'], none, by decide, all_isDigit_nil, by
        decide, by decide⟩, rfl⟩]
    (by decide)

example : compactPage.text = "M1-2.5.5e-1,.5".toList := by decide

theorem read_iff_plain_compactPage :
    read compactPage.text = compactPage.commands ∧
      mirror compactPage.text (Box.ofRect (0.0 : Float) 0.0 10.0 4.0) =
        "M 9 -2.5 9.95 .5".toList := by
  obtain ⟨restored, mirrored⟩ := @read_iff_plain Float _ compactPage
  have plain : compactPage.Plain := by
    intro line member
    rcases List.mem_singleton.mp member with rfl
    unfold Line.Plain
    decide
  refine ⟨restored.mpr plain, (mirrored plain _ (by decide +kernel)).trans ?_⟩
  decide +kernel

def hiddenPage : Page :=
  .move
    [⟨[], ⟨[], ['1'], none, some tenth, by decide, rfl, by decide, by decide⟩, rfl⟩,
      ⟨[], ⟨[], [], some ['5'], none, by decide, all_isDigit_nil, by decide, by decide⟩,
        rfl⟩]
    (by decide)

/-- The two numbers are read as one operand. -/
theorem not_forall_read_text : ¬∀ page : Page, read page.text = page.commands := by
  intro all
  have separate : hiddenPage.commands = [⟨'M', [['1', 'e', '-', '1'], ['.', '5']]⟩] := by
    decide
  have glued : read hiddenPage.text = [⟨'M', [['1', 'e', '-', '1', '.', '5']]⟩] := by
    decide
  have same := all hiddenPage
  rw [separate, glued] at same
  exact absurd same (by decide)

end Photoplot.Path
