import Photoplot.Proofs.Path.Reading
import Photoplot.Source.Block

/-! # Blocks as pieces of a text

What the scan of a text finds, said without a scan: the text without its line
breaks is cut at percent signs, its pieces at stars, and the pieces are by turns
outside and inside of a parameter block. Texts that leave nothing open are scanned
one by one. -/

namespace Photoplot

namespace Text

theorem pieces_append_cons (separator : Char) (first second : Text) :
    pieces separator (first ++ separator :: second) =
      pieces separator first ++ pieces separator second := by
  simp only [pieces_eq_splitOn, List.splitOn_eq_splitOnP]
  exact List.splitOnP_append_cons first second (by simp)

theorem pieces_append_of_not_mem {separator : Char} {first : Text}
    (absent : separator ∉ first) (text : Text) :
    ∃ piece others, pieces separator text = piece :: others ∧
      pieces separator (first ++ text) = (first ++ piece) :: others := by
  induction first with
  | nil =>
      have isSome : pieces separator text ≠ [] := by
        rw [pieces_eq_splitOn]
        exact List.splitOn_ne_nil separator text
      rcases List.exists_cons_of_ne_nil isSome with ⟨piece, others, cut⟩
      exact ⟨piece, others, cut, cut⟩
  | cons c rest induction =>
      simp only [List.mem_cons, not_or] at absent
      rcases induction absent.2 with ⟨piece, others, cut, cutAll⟩
      refine ⟨piece, others, cut, ?_⟩
      rw [List.cons_append, pieces, if_neg (Ne.symm absent.1), cutAll]
      rfl

theorem pieces_of_not_mem {separator : Char} {text : Text} (absent : separator ∉ text) :
    pieces separator text = [text] := by
  rcases pieces_append_of_not_mem absent [] with ⟨piece, others, cut, cutAll⟩
  rw [pieces, List.cons_eq_cons] at cut
  simpa [← cut.1, ← cut.2] using cutAll

/-! ## Blanks -/

def AllBlank (text : Text) : Prop := ∀ c ∈ text, isBlank c = true

instance (text : Text) : Decidable text.AllBlank :=
  List.decidableBAll (isBlank · = true) text

theorem AllBlank.not_mem {text : Text} (blank : text.AllBlank) {c : Char}
    (solid : isBlank c = false) : c ∉ text :=
  fun member => Bool.noConfusion (solid.symm.trans (blank c member))

theorem trim_blank_append {blanks : Text} (blank : blanks.AllBlank) (text : Text) :
    (blanks ++ text).trim = text.trim := by
  rw [trim, List.dropWhile_append_of_pos blank, trim]

end Text

namespace Block

/-! ## Commands of a piece -/

def isBreak (c : Char) : Bool := c = '\n' || c = '\r'

def withoutBreaks (text : Text) : Text := text.filter fun c => !isBreak c

def commandsIn (piece : Text) : List Text :=
  ((Text.pieces '*' piece).map Text.trim).filter fun command =>
    !command.isEmpty && !isComment command

theorem commandsIn_append_star (first second : Text) :
    commandsIn (first ++ '*' :: second) = commandsIn first ++ commandsIn second := by
  simp [commandsIn, Text.pieces_append_cons]

theorem commandsIn_of_not_mem {piece : Text} (absent : '*' ∉ piece) :
    commandsIn piece = (command? piece).toList := by
  rw [commandsIn, Text.pieces_of_not_mem absent]
  cases empty : piece.trim.isEmpty <;> cases comment : isComment piece.trim <;>
    simp [command?, empty, comment]

/-! ## Blocks of a text -/

/-- Pieces with an even number are outside of parameter blocks, the others
inside. -/
def ofPiece (index : ℕ) (piece : Text) : List Block :=
  if index % 2 = 0 then (commandsIn piece).map .word
  else if (commandsIn piece).isEmpty then []
  else [.parameter (commandsIn piece)]

def ofPieces (index : ℕ) (pieces : List Text) : List Block :=
  (pieces.zipIdx index).flatMap fun (piece, number) => ofPiece number piece

def ofText (text : Text) : List Block := ofPieces 0 (Text.pieces '%' (withoutBreaks text))

theorem ofPieces_cons (index : ℕ) (piece : Text) (others : List Text) :
    ofPieces index (piece :: others) =
      ofPiece index piece ++ ofPieces (index + 1) others := by
  simp [ofPieces]

/-! ## The scan of a piece

Within a piece the scan goes from star to star, and what it keeps open belongs to
the next command. -/

namespace Scan

def add (scan : Scan) (commands : List Text) : Scan :=
  match scan.group with
  | some opened => ⟨scan.blocks, some (commands.reverse ++ opened), []⟩
  | none => ⟨(commands.map Block.word).reverse ++ scan.blocks, none, []⟩

theorem add_add (scan : Scan) (first second : List Text) :
    (scan.add first).add second = scan.add (first ++ second) := by
  rcases scan with ⟨blocks, _ | opened, pending⟩ <;> simp [add]

theorem endCommand_eq (scan : Scan) (solid : '*' ∉ scan.pending) :
    scan.endCommand = scan.add (commandsIn scan.pending.reverse) := by
  rw [commandsIn_of_not_mem (by simpa using solid)]
  rcases scan with ⟨blocks, _ | opened, pending⟩ <;>
    cases command : command? pending.reverse <;>
    simp [endCommand, add, command]

theorem pending_add (scan : Scan) (commands : List Text) :
    (scan.add commands).pending = [] := by
  rcases scan with ⟨blocks, _ | opened, pending⟩ <;> rfl

/-- The scan of a piece, up to where its last command ends. -/
theorem endCommand_foldl (scan : Scan) {piece : Text} (inside : '%' ∉ piece)
    (solid : '*' ∉ scan.pending) :
    (piece.foldl step scan).endCommand =
      scan.add (commandsIn (scan.pending.reverse ++ withoutBreaks piece)) := by
  induction piece generalizing scan with
  | nil => simpa [withoutBreaks] using scan.endCommand_eq solid
  | cons c rest induction =>
      simp only [List.mem_cons, not_or] at inside
      rw [List.foldl_cons]
      by_cases star : c = '*'
      · subst star
        have next : step scan '*' = scan.endCommand := rfl
        have kept : withoutBreaks ('*' :: rest) = '*' :: withoutBreaks rest := rfl
        rw [next, scan.endCommand_eq solid,
          induction _ inside.2 (by simp [pending_add]), pending_add, add_add, kept,
          commandsIn_append_star]
        rfl
      · by_cases isBreak : isBreak c = true
        · have next : step scan c = scan := by
            simp only [Block.isBreak, Bool.or_eq_true, decide_eq_true_eq] at isBreak
            simp [step, Ne.symm inside.1, star, isBreak]
          rw [next, induction scan inside.2 solid]
          simp [withoutBreaks, isBreak]
        · have next : step scan c = ⟨scan.blocks, scan.group, c :: scan.pending⟩ := by
            simp only [Block.isBreak, Bool.or_eq_true, decide_eq_true_eq] at isBreak
            simp [step, Ne.symm inside.1, star, isBreak]
          rw [next, induction _ inside.2 (by simp [Ne.symm star, solid])]
          rcases scan with ⟨blocks, _ | opened, pending⟩ <;>
            simp [add, withoutBreaks, isBreak]

/-! ## The scan of a text -/

def inPiece (index : ℕ) (blocks : List Block) (pending : Text) : Scan :=
  ⟨blocks, if index % 2 = 0 then none else some [], pending⟩

theorem percent_foldl (index : ℕ) (blocks : List Block) {pending piece : Text}
    (inside : '%' ∉ piece) (solid : '*' ∉ pending) :
    (piece.foldl step (inPiece index blocks pending)).percent =
      inPiece (index + 1)
        ((ofPiece index (pending.reverse ++ withoutBreaks piece)).reverse ++
          blocks) [] := by
  have ended := endCommand_foldl (inPiece index blocks pending) inside solid
  simp only [percent, ended]
  rcases Nat.mod_two_eq_zero_or_one index with even | odd
  · have next : (index + 1) % 2 = 1 := by omega
    simp [inPiece, add, ofPiece, even, next]
  · have next : (index + 1) % 2 = 0 := by omega
    cases commands : commandsIn (pending.reverse ++ withoutBreaks piece) <;>
      simp [inPiece, add, ofPiece, odd, next, endGroup, ofGroup, commands]

theorem finish_foldl_piece (index : ℕ) (blocks : List Block) {pending piece : Text}
    (inside : '%' ∉ piece) (solid : '*' ∉ pending) :
    (piece.foldl step (inPiece index blocks pending)).finish =
      blocks.reverse ++ ofPiece index (pending.reverse ++ withoutBreaks piece) := by
  have ended := endCommand_foldl (inPiece index blocks pending) inside solid
  simp only [finish, ended]
  rcases Nat.mod_two_eq_zero_or_one index with even | odd
  · simp [inPiece, add, ofPiece, even, endGroup]
  · cases commands : commandsIn (pending.reverse ++ withoutBreaks piece) <;>
      simp [inPiece, add, ofPiece, odd, endGroup, ofGroup, commands]

/-- From piece to piece, from one percent sign to the next. -/
theorem finish_foldl (index : ℕ) (blocks : List Block) {pending : Text} (text : Text)
    (solid : '*' ∉ pending) (inside : '%' ∉ pending) :
    (text.foldl step (inPiece index blocks pending)).finish =
      blocks.reverse ++
        ofPieces index (Text.pieces '%' (pending.reverse ++ withoutBreaks text)) := by
  induction length : text.length using Nat.strongRecOn
    generalizing index blocks pending text with
  | ind count induction =>
      by_cases more : '%' ∈ text
      · rcases List.eq_append_cons_of_mem more with ⟨piece, rest, rfl, isPiece⟩
        have shorter : rest.length < count := by
          simp only [List.length_append, List.length_cons] at length
          omega
        have cut : pending.reverse ++ withoutBreaks (piece ++ '%' :: rest) =
            (pending.reverse ++ withoutBreaks piece) ++ '%' :: withoutBreaks rest := by
          simp [withoutBreaks, isBreak]
        have first : '%' ∉ pending.reverse ++ withoutBreaks piece := by
          simp [withoutBreaks, inside, isPiece]
        have next : step (piece.foldl step (inPiece index blocks pending)) '%' =
            (piece.foldl step (inPiece index blocks pending)).percent := rfl
        rw [List.foldl_append, List.foldl_cons, next,
          percent_foldl index blocks isPiece solid,
          induction rest.length shorter _ _ rest (by simp) (by simp) rfl, cut,
            Text.pieces_append_cons, Text.pieces_of_not_mem first]
        simp [ofPieces_cons]
      · have whole : '%' ∉ pending.reverse ++ withoutBreaks text := by
          simp [withoutBreaks, inside, more]
        rw [finish_foldl_piece index blocks more solid, Text.pieces_of_not_mem whole]
        simp [ofPieces]

end Scan

theorem scan_eq_ofPieces (text : Text) :
    scan text = ofPieces 0 (Text.pieces '%' (withoutBreaks text)) :=
  Scan.finish_foldl 0 [] text (by simp) (by simp)

/-- The scan finds the commands between stars of the pieces between percent
signs, in their order; every second piece is a parameter block. -/
theorem scan_eq_ofText (text : Text) : scan text = ofText text :=
  scan_eq_ofPieces text

/-! ## Texts in a row

A text that leaves nothing open is scanned without regard to what follows it, for
behind it the scan stands as it does at the start, but for blanks. -/

def isEnd (c : Char) : Bool := c = '*' || c = '%'

def unended (text : Text) : Text := text.rtakeWhile fun c => !isEnd c

structure IsComplete (text : Text) : Prop where
  paired : Even (text.count '%')
  blank : (unended text).AllBlank

instance (text : Text) : Decidable (IsComplete text) :=
  decidable_of_iff (Even (text.count '%') ∧ (unended text).AllBlank)
    ⟨fun ⟨paired, blank⟩ => ⟨paired, blank⟩, fun ⟨paired, blank⟩ => ⟨paired, blank⟩⟩

theorem commandsIn_blank_append {blanks : Text} (blank : blanks.AllBlank) (piece : Text) :
    commandsIn (blanks ++ piece) = commandsIn piece := by
  have noStar : '*' ∉ blanks := blank.not_mem (by decide)
  rcases Text.pieces_append_of_not_mem noStar piece with ⟨first, others, cut, cutAll⟩
  rw [commandsIn, commandsIn, cut, cutAll, List.map_cons, List.map_cons,
    Text.trim_blank_append blank first]

theorem ofPieces_blank_append (index : ℕ) {blanks : Text} (blank : blanks.AllBlank)
    (text : Text) :
    ofPieces index (Text.pieces '%' (blanks ++ text)) =
      ofPieces index (Text.pieces '%' text) := by
  have noPercent : '%' ∉ blanks := blank.not_mem (by decide)
  rcases Text.pieces_append_of_not_mem noPercent text with ⟨first, others, cut, cutAll⟩
  rw [cut, cutAll, ofPieces_cons, ofPieces_cons, ofPiece, ofPiece,
    commandsIn_blank_append blank first]

namespace Scan

theorem group_step (scan : Scan) (c : Char) :
    (step scan c).group.isSome = (scan.group.isSome ^^ decide (c = '%')) := by
  rcases scan with ⟨blocks, _ | opened, pending⟩ <;> by_cases percent : c = '%' <;>
    by_cases star : c = '*' <;> by_cases isBreak : c = '\n' ∨ c = '\r' <;>
    simp [step, Scan.percent, endCommand, endGroup, percent, star, isBreak]

/-- Every percent sign opens a parameter block or closes one. -/
theorem group_foldl (scan : Scan) (text : Text) :
    (text.foldl step scan).group.isSome =
      (scan.group.isSome ^^ decide (Odd (text.count '%'))) := by
  induction text generalizing scan with
  | nil => simp
  | cons c rest induction =>
      rw [List.foldl_cons, induction, group_step, List.count_cons]
      by_cases percent : c = '%'
      · have next : decide (Odd (rest.count '%' + 1)) =
            !decide (Odd (rest.count '%')) := by
          simp only [Nat.odd_add_one, decide_not]
        simp only [percent, beq_self_eq_true, if_true, decide_true, next, Bool.xor_assoc,
          Bool.true_xor]
      · simp [percent]

theorem pending_step_of_isEnd (scan : Scan) {c : Char} (ends : isEnd c = true) :
    (step scan c).pending = [] := by
  simp only [isEnd, Bool.or_eq_true, decide_eq_true_eq] at ends
  rcases scan with ⟨blocks, _ | opened, pending⟩ <;> rcases ends with rfl | rfl <;> rfl

theorem blank_pending_step (scan : Scan) {c : Char} (isBlank : Text.isBlank c = true)
    (blank : scan.pending.AllBlank) : (step scan c).pending.AllBlank := by
  have notPercent : c ≠ '%' := fun percent => absurd isBlank (by simp [percent]; decide)
  have notStar : c ≠ '*' := fun star => absurd isBlank (by simp [star]; decide)
  rw [step, if_neg notPercent, if_neg notStar]
  split
  · exact blank
  · exact List.forall_mem_cons.mpr ⟨isBlank, blank⟩

theorem blank_pending_foldl (scan : Scan) {text : Text} (isBlank : text.AllBlank)
    (blank : scan.pending.AllBlank) : (text.foldl step scan).pending.AllBlank := by
  induction text generalizing scan with
  | nil => exact blank
  | cons c rest induction =>
      have ⟨first, others⟩ := List.forall_mem_cons.mp isBlank
      exact induction (step scan c) others (scan.blank_pending_step first blank)

/-- Behind a complete text no parameter block is open, and only blanks are kept
for the next command. -/
theorem foldl_of_isComplete {text : Text} (complete : IsComplete text) :
    ∃ blocks pending,
      text.foldl step start = inPiece 0 blocks pending ∧ pending.AllBlank := by
  have closed : (text.foldl step start).group.isSome = false := by
    rw [group_foldl]
    simpa [start] using complete.paired
  have blank : (text.foldl step start).pending.AllBlank := by
    have split : (text.rdropWhile fun c => !isEnd c) ++ unended text = text :=
      List.rdropWhile_append_rtakeWhile ..
    have ends := List.rdropWhile_last_not (fun c => !isEnd c) text
    rw [← split, List.foldl_append]
    refine blank_pending_foldl _ complete.blank ?_
    -- what stands in front of the blanks is empty or has just ended a command
    rcases List.eq_nil_or_concat' (text.rdropWhile fun c => !isEnd c) with
      none | ⟨front, last, isLast⟩
    · simp [none, start, Text.AllBlank]
    · have lastEnds : isEnd last = true := by simpa [isLast] using ends
      simp [isLast, pending_step_of_isEnd _ lastEnds, Text.AllBlank]
  rcases scan : text.foldl step start with ⟨blocks, _ | opened, pending⟩
  · exact ⟨blocks, pending, rfl, by simpa [scan] using blank⟩
  · simp [scan] at closed

end Scan

/-- The blocks of two texts in a row are those of the first, if it is complete, and
then those of the second, whatever that is. -/
theorem scan_append {first : Text} (complete : IsComplete first) (second : Text) :
    scan (first ++ second) = scan first ++ scan second := by
  rcases Scan.foldl_of_isComplete complete with ⟨blocks, pending, rests, blank⟩
  have blankBehind : Text.AllBlank pending.reverse := by simpa [Text.AllBlank] using blank
  have continued (text : Text) : scan (first ++ text) = blocks.reverse ++ scan text := by
    rw [scan, List.foldl_append, rests,
      Scan.finish_foldl 0 blocks text (blank.not_mem (by decide))
        (blank.not_mem (by decide)), ofPieces_blank_append 0 blankBehind,
      scan_eq_ofPieces]
  have firstBlocks : scan first = blocks.reverse := by
    simpa [show scan [] = [] from rfl] using continued []
  rw [continued, firstBlocks]

end Block

end Photoplot
