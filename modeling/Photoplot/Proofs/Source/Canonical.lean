import Photoplot.Proofs.Source.Aperture
import Photoplot.Proofs.Source.Block

/-! # Blocks in canonical form

What a scan finds can be written down again. The commands of a block are trimmed, hold no
character that ends a command and are no comments, so that nothing of them is lost when
they are scanned once more. Blanks and comments may stand wherever a command could begin:
they leave no command behind. -/

namespace Photoplot

namespace Text

/-! ## Trimmed texts -/

theorem trim_eq_rdropWhile (text : Text) :
    text.trim = (text.dropWhile isBlank).rdropWhile isBlank := rfl

theorem mem_of_mem_trim {text : Text} {c : Char} (member : c ∈ text.trim) : c ∈ text :=
  (List.dropWhile_sublist isBlank).subset
    ((List.rdropWhile_prefix isBlank _).subset member)

theorem trim_trim (text : Text) : text.trim.trim = text.trim := by
  have begins : text.trim.dropWhile isBlank = text.trim := by
    rcases List.rdropWhile_prefix isBlank (text.dropWhile isBlank) with ⟨behind, cut⟩
    rw [← trim_eq_rdropWhile] at cut
    have solid := List.head?_dropWhile_not isBlank text
    cases trimmed : text.trim with
    | nil => rfl
    | cons first rest =>
        rw [← cut, trimmed, List.cons_append, List.head?_cons] at solid
        exact List.dropWhile_cons_of_neg (by simpa using solid)
  rw [trim_eq_rdropWhile text.trim, begins, trim_eq_rdropWhile text,
    List.rdropWhile_idempotent]

theorem trim_append_blank {blanks : Text} (blank : blanks.AllBlank) (text : Text) :
    (text ++ blanks).trim = text.trim := by
  have nothing : blanks.dropWhile isBlank = [] := List.dropWhile_eq_nil_iff.mpr blank
  have nothingBehind : ∀ c ∈ blanks.reverse, isBlank c = true := by
    simpa [AllBlank] using blank
  rw [trim, trim, List.dropWhile_append]
  split
  · rename_i allBlank
    simp [nothing, List.isEmpty_iff.mp allBlank]
  · rw [List.reverse_append, List.dropWhile_append_of_pos nothingBehind]

/-- A text that begins with a solid word still does when it is trimmed. -/
theorem exists_trim_append {word : Text} (solid : ∀ c ∈ word, isBlank c = false)
    (text : Text) :
    ∃ rest, (word ++ text).trim = word ++ rest := by
  cases word with
  | nil => exact ⟨text.trim, rfl⟩
  | cons first others =>
      have front : ((first :: others) ++ text).dropWhile isBlank =
          (first :: others) ++ text := by
        simp [solid first (by simp)]
      have back : (first :: others).reverse.dropWhile isBlank =
          (first :: others).reverse := by
        rw [List.dropWhile_eq_self_iff]
        intro some
        rw [solid _ (List.mem_reverse.mp (List.getElem_mem some))]
        exact Bool.false_ne_true
      rw [trim, front, List.reverse_append, List.dropWhile_append]
      split
      · exact ⟨[], by rw [back, List.reverse_reverse, List.append_nil]⟩
      · exact ⟨_, by rw [List.reverse_append, List.reverse_reverse]⟩

theorem mem_of_mem_pieces {separator : Char} {text : Text} :
    ∀ piece ∈ pieces separator text, ∀ c ∈ piece, c ∈ text := by
  induction text with
  | nil => simp [pieces]
  | cons first rest induction =>
      have later : ∀ piece ∈ pieces separator rest, ∀ c ∈ piece, c ∈ first :: rest :=
        fun piece isPiece c member =>
          List.mem_cons_of_mem _ (induction piece isPiece c member)
      rw [pieces]
      split
      · simpa using later
      · split
        · simp
        · rename_i head others cut
          rw [cut, List.forall_mem_cons] at later
          refine List.forall_mem_cons.mpr ⟨?_, later.2⟩
          exact List.forall_mem_cons.mpr ⟨List.mem_cons_self, later.1⟩

instance (text marks : Text) : Decidable (List.Disjoint text marks) :=
  @decidable_of_iff _ (∀ c ∈ text, c ∉ marks) List.disjoint_left.symm
    (List.decidableBAll (· ∉ marks) text)

end Text

namespace Block

/-! ## Canonical blocks -/

structure IsCommand (command : Text) : Prop where
  nonempty : command ≠ []
  trimmed : command.trim = command
  solid : command.Disjoint ['*', '%', '\n', '\r']
  noComment : isComment command = false

instance (command : Text) : Decidable (IsCommand command) :=
  decidable_of_iff (command ≠ [] ∧ command.trim = command ∧
      command.Disjoint ['*', '%', '\n', '\r'] ∧ isComment command = false)
    ⟨fun ⟨nonempty, trimmed, solid, noComment⟩ => ⟨nonempty, trimmed, solid, noComment⟩,
      fun ⟨nonempty, trimmed, solid, noComment⟩ => ⟨nonempty, trimmed, solid, noComment⟩⟩

def IsCanonical : Block → Prop
  | .parameter commands => commands ≠ [] ∧ ∀ command ∈ commands, IsCommand command
  | .word command => IsCommand command

instance : DecidablePred IsCanonical
  | .parameter _ => instDecidableAnd
  | .word command => inferInstanceAs (Decidable (IsCommand command))

theorem isCommand_of_mem_commandsIn {piece command : Text}
    (solid : piece.Disjoint ['%', '\n', '\r']) (member : command ∈ commandsIn piece) :
    IsCommand command := by
  rcases List.mem_filter.mp member with ⟨isTrimmed, kept⟩
  rcases List.mem_map.mp isTrimmed with ⟨given, isPiece, rfl⟩
  simp only [Bool.and_eq_true, Bool.not_eq_true', List.isEmpty_eq_false_iff] at kept
  refine ⟨kept.1, given.trim_trim, ?_, kept.2⟩
  intro c inCommand mark
  have inGiven := Text.mem_of_mem_trim inCommand
  rcases List.mem_cons.mp mark with rfl | mark
  · exact Text.not_mem_of_mem_pieces given isPiece inGiven
  · exact solid (Text.mem_of_mem_pieces given isPiece c inGiven) mark

theorem isCanonical_of_mem_ofPiece {index : ℕ} {piece : Text}
    (solid : piece.Disjoint ['%', '\n', '\r']) {block : Block}
    (member : block ∈ ofPiece index piece) : block.IsCanonical := by
  unfold ofPiece at member
  split at member
  · rcases List.mem_map.mp member with ⟨command, found, rfl⟩
    exact isCommand_of_mem_commandsIn solid found
  · split at member
    · cases member
    · rename_i some
      rcases List.mem_singleton.mp member with rfl
      exact ⟨fun none => some (List.isEmpty_iff.mpr none),
        fun command => isCommand_of_mem_commandsIn solid⟩

theorem isCanonical_of_mem_scan {text : Text} {block : Block}
    (member : block ∈ scan text) :
    block.IsCanonical := by
  rw [scan_eq_ofPieces] at member
  rcases List.mem_flatMap.mp member with ⟨⟨piece, number⟩, numbered, isBlock⟩
  have isPiece := List.fst_mem_of_mem_zipIdx numbered
  refine isCanonical_of_mem_ofPiece (fun c inPiece mark => ?_) isBlock
  rcases List.mem_cons.mp mark with rfl | lineEnd
  · exact Text.not_mem_of_mem_pieces piece isPiece inPiece
  · have kept : c ≠ '\n' ∧ c ≠ '\r' := by
      simpa [isBreak]
        using (List.mem_filter.mp (Text.mem_of_mem_pieces piece isPiece c inPiece)).2
    simp [kept] at lineEnd

/-! ## Written blocks -/

inductive IsFiller : Text → Prop
  | nil : IsFiller []
  | blank {c : Char} {rest : Text} (isBlank : Text.isBlank c = true)
      (filler : IsFiller rest) :
      IsFiller (c :: rest)
  | comment {note rest : Text} (solid : note.Disjoint ['*', '%'])
      (filler : IsFiller rest) :
      IsFiller (['G', '0', '4'] ++ note ++ '*' :: rest)

inductive WritesCommands : List Text → Text → Prop
  | nil {filler : Text} (isFiller : IsFiller filler) : WritesCommands [] filler
  | cons {filler command blanks rest : Text} {commands : List Text}
      (isFiller : IsFiller filler)
      (blank : blanks.AllBlank) (others : WritesCommands commands rest) :
      WritesCommands (command :: commands)
        (filler ++ (command ++ (blanks ++ '*' :: rest)))

/-- A text of blocks with filler wherever a command could begin. Blanks may also stand in
front of a star. -/
inductive Writes : List Block → Text → Prop
  | nil {filler : Text} (isFiller : IsFiller filler) : Writes [] filler
  | word {filler command blanks rest : Text} {blocks : List Block}
      (isFiller : IsFiller filler)
      (blank : blanks.AllBlank) (others : Writes blocks rest) :
      Writes (.word command :: blocks) (filler ++ (command ++ (blanks ++ '*' :: rest)))
  | parameter {filler inside rest : Text} {commands : List Text} {blocks : List Block}
      (isFiller : IsFiller filler) (written : WritesCommands commands inside)
      (others : Writes blocks rest) :
      Writes (.parameter commands :: blocks) (filler ++ '%' :: (inside ++ '%' :: rest))

def text : Block → Text
  | .word command => command ++ ['*']
  | .parameter commands => '%' :: (commands.flatMap (· ++ ['*']) ++ ['%'])

theorem writesCommands_flatMap (commands : List Text) :
    WritesCommands commands (commands.flatMap (· ++ ['*'])) := by
  induction commands with
  | nil => exact .nil .nil
  | cons command rest induction =>
      have noBlank : Text.AllBlank [] := List.forall_mem_nil _
      have first :
          WritesCommands (command :: rest) ([] ++ (command ++ ([] ++ '*' :: _))) :=
        .cons .nil noBlank induction
      simpa using first

theorem writes_flatMap (blocks : List Block) : Writes blocks (blocks.flatMap text) := by
  induction blocks with
  | nil => exact .nil .nil
  | cons block rest induction =>
      cases block with
      | word command =>
          have noBlank : Text.AllBlank [] := List.forall_mem_nil _
          have first :
              Writes (.word command :: rest) ([] ++ (command ++ ([] ++ '*' :: _))) :=
            .word .nil noBlank induction
          simpa [text] using first
      | parameter commands =>
          simpa [text]
            using Writes.parameter .nil (writesCommands_flatMap commands) induction

/-! ## Scanning what was written -/

theorem withoutBreaks_append (first second : Text) :
    withoutBreaks (first ++ second) = withoutBreaks first ++ withoutBreaks second :=
  List.filter_append ..

theorem withoutBreaks_cons_star (rest : Text) :
    withoutBreaks ('*' :: rest) = '*' :: withoutBreaks rest := rfl

theorem allBlank_withoutBreaks {blanks : Text} (blank : blanks.AllBlank) :
    (withoutBreaks blanks).AllBlank :=
      fun c member => blank c (List.mem_filter.mp member).1

theorem IsCommand.withoutBreaks_eq {command : Text} (isCommand : IsCommand command) :
    withoutBreaks command = command := by
  refine List.filter_eq_self.mpr fun c member => ?_
  have solid := List.disjoint_left.mp isCommand.solid member
  simp only [List.mem_cons, not_or] at solid
  simp [isBreak, solid]

theorem IsCommand.not_mem_star {command : Text} (isCommand : IsCommand command) :
    '*' ∉ command := fun member => isCommand.solid member (by simp)

theorem IsCommand.not_mem_percent {command : Text} (isCommand : IsCommand command) :
    '%' ∉ command := fun member => isCommand.solid member (by simp)

theorem commandsIn_comment {note : Text} (solid : '*' ∉ note) :
    commandsIn (['G', '0', '4'] ++ note) = [] := by
  have letters : ∀ c ∈ ['G', '0', '4'], Text.isBlank c = false := by
    simp only [List.forall_mem_cons, List.not_mem_nil, false_implies, implies_true]
    decide
  rcases Text.exists_trim_append letters note with ⟨rest, trimmed⟩
  have comment : isComment (['G', '0', '4'] ++ rest) = true := by simp [isComment]
  rw [commandsIn_of_not_mem (by simpa using solid), command?, trimmed, comment,
    Bool.or_true]
  rfl

/-- Filler leaves no command behind, whatever follows it. -/
theorem IsFiller.commandsIn_append {filler : Text} (isFiller : IsFiller filler)
    (piece : Text) :
    commandsIn (withoutBreaks filler ++ piece) = commandsIn piece := by
  induction isFiller with
  | nil => rfl
  | @blank c rest isBlank _ induction =>
      have single : Text.AllBlank (withoutBreaks [c]) :=
        allBlank_withoutBreaks fun other member => List.mem_singleton.mp member ▸ isBlank
      rw [← List.singleton_append, withoutBreaks_append, List.append_assoc,
        commandsIn_blank_append single, induction]
  | @comment note rest solid _ induction =>
      have starless : '*' ∉ withoutBreaks note := fun member =>
        solid (List.mem_filter.mp member).1 (by simp)
      have mark : withoutBreaks ['G', '0', '4'] = ['G', '0', '4'] := rfl
      have behind : '*' :: withoutBreaks rest ++ piece =
          '*' :: (withoutBreaks rest ++ piece) := rfl
      rw [withoutBreaks_append, withoutBreaks_append, mark, withoutBreaks_cons_star,
        List.append_assoc, behind, commandsIn_append_star, commandsIn_comment starless,
        induction, List.nil_append]

theorem IsFiller.not_mem_percent {filler : Text} (isFiller : IsFiller filler) :
    '%' ∉ filler := by
  induction isFiller with
  | nil => exact List.not_mem_nil
  | @blank c rest isBlank _ induction =>
      refine List.not_mem_cons_of_ne_of_not_mem ?_ induction
      rintro rfl
      exact Bool.noConfusion isBlank
  | @comment note rest solid _ induction =>
      have outside : '%' ∉ note := fun member => solid member (by simp)
      simp [outside, induction]

theorem IsCommand.commandsIn_append_star {command blanks : Text}
    (isCommand : IsCommand command) (blank : blanks.AllBlank) (rest : Text) :
    commandsIn (command ++ (blanks ++ '*' :: rest)) = command :: commandsIn rest := by
  have starless : '*' ∉ command ++ blanks := by
    simp [isCommand.not_mem_star, blank.not_mem (c := '*') (by decide)]
  have found : command? (command ++ blanks) = .some command := by
    rw [command?, Text.trim_append_blank blank, isCommand.trimmed]
    simp [isCommand.nonempty, isCommand.noComment]
  rw [← List.append_assoc, Block.commandsIn_append_star, commandsIn_of_not_mem starless,
    found]
  rfl

theorem WritesCommands.commandsIn_eq {commands : List Text} {inside : Text}
    (written : WritesCommands commands inside)
    (areCommands : ∀ command ∈ commands, IsCommand command) :
    commandsIn (withoutBreaks inside) = commands := by
  induction written with
  | @nil filler isFiller =>
      rw [← List.append_nil (withoutBreaks filler), isFiller.commandsIn_append]
      rfl
  | @cons filler command blanks rest commands isFiller blank _ induction =>
      rw [List.forall_mem_cons] at areCommands
      rw [withoutBreaks_append, isFiller.commandsIn_append, withoutBreaks_append,
        withoutBreaks_append, withoutBreaks_cons_star, areCommands.1.withoutBreaks_eq,
        areCommands.1.commandsIn_append_star (allBlank_withoutBreaks blank),
        induction areCommands.2]

theorem WritesCommands.not_mem_percent {commands : List Text} {inside : Text}
    (written : WritesCommands commands inside)
    (areCommands : ∀ command ∈ commands, IsCommand command) :
    '%' ∉ inside := by
  induction written with
  | nil isFiller => exact isFiller.not_mem_percent
  | cons isFiller blank _ induction =>
      rw [List.forall_mem_cons] at areCommands
      simp [isFiller.not_mem_percent, areCommands.1.not_mem_percent,
        blank.not_mem (c := '%') (by decide), induction areCommands.2]

theorem not_mem_withoutBreaks {text : Text} {c : Char} (absent : c ∉ text) :
    c ∉ withoutBreaks text := fun member => absent (List.mem_filter.mp member).1

theorem IsFiller.ofPiece_eq_nil {filler : Text} (isFiller : IsFiller filler) (index : ℕ) :
    ofPiece index (withoutBreaks filler) = [] := by
  have none : commandsIn (withoutBreaks filler) = [] := by
    rw [← List.append_nil (withoutBreaks filler), isFiller.commandsIn_append]
    rfl
  simp [ofPiece, none]

/-- Outside of parameter blocks written blocks are read back, whatever the number of the
piece that they begin in. -/
theorem ofPieces_of_writes {blocks : List Block} {text : Text}
    (written : Writes blocks text)
    (canonical : ∀ block ∈ blocks, block.IsCanonical) {index : ℕ}
    (outside : index % 2 = 0) :
    ofPieces index (Text.pieces '%' (withoutBreaks text)) = blocks := by
  induction written generalizing index with
  | @nil filler isFiller =>
      rw [Text.pieces_of_not_mem (not_mem_withoutBreaks isFiller.not_mem_percent),
        ofPieces_cons, isFiller.ofPiece_eq_nil]
      rfl
  | @word filler command blanks rest blocks isFiller blank _ induction =>
      rw [List.forall_mem_cons] at canonical
      have isCommand : IsCommand command := canonical.1
      have others := induction canonical.2 outside
      have blank := allBlank_withoutBreaks blank
      have percentless :
          '%' ∉ withoutBreaks filler ++ (command ++ (withoutBreaks blanks ++ ['*'])) := by
        simp [not_mem_withoutBreaks isFiller.not_mem_percent, isCommand.not_mem_percent,
          blank.not_mem (c := '%') (by decide)]
      rcases Text.pieces_append_of_not_mem percentless (withoutBreaks rest) with
        ⟨piece, later, cut, cutAll⟩
      simp only [List.append_assoc, List.singleton_append] at cutAll
      rw [cut, ofPieces_cons, ofPiece, if_pos outside] at others
      rw [withoutBreaks_append, withoutBreaks_append, withoutBreaks_append,
        withoutBreaks_cons_star, isCommand.withoutBreaks_eq, cutAll, ofPieces_cons,
        ofPiece, if_pos outside, isFiller.commandsIn_append,
        isCommand.commandsIn_append_star blank, List.map_cons, List.cons_append, others]
  | @parameter filler inside rest commands blocks isFiller written _ induction =>
      rw [List.forall_mem_cons] at canonical
      have areCommands : commands ≠ [] ∧ ∀ command ∈ commands,
          IsCommand command := canonical.1
      have next : (index + 1) % 2 ≠ 0 := by omega
      have others := induction canonical.2 (by omega : (index + 2) % 2 = 0)
      have percent : ∀ text : Text, withoutBreaks ('%' :: text) =
          '%' :: withoutBreaks text :=
        fun _ => rfl
      have found : ofPiece (index + 1) (withoutBreaks inside) =
          [.parameter commands] := by
        rw [ofPiece, if_neg next, written.commandsIn_eq areCommands.2]
        simp [areCommands.1]
      rw [withoutBreaks_append, percent, withoutBreaks_append, percent,
        Text.pieces_append_cons, Text.pieces_append_cons,
        Text.pieces_of_not_mem (not_mem_withoutBreaks isFiller.not_mem_percent),
        Text.pieces_of_not_mem
          (not_mem_withoutBreaks (written.not_mem_percent areCommands.2)),
        List.singleton_append, ofPieces_cons, List.singleton_append, ofPieces_cons,
        isFiller.ofPiece_eq_nil, found, List.nil_append, others, List.singleton_append]

/-- The blocks that a scan finds are canonical, and canonical blocks are found again in
every text that they are written in: bare, or with blanks and comments at the borders of
commands. -/
theorem scan_canonical :
    (∀ text, ∀ block ∈ scan text, block.IsCanonical) ∧
      ∀ blocks : List Block, (∀ block ∈ blocks, block.IsCanonical) →
        Writes blocks (blocks.flatMap text) ∧ ∀ written, Writes blocks written →
          scan written = blocks := by
  refine ⟨fun text block => isCanonical_of_mem_scan, fun blocks canonical =>
    ⟨writes_flatMap blocks, fun text written => ?_⟩⟩
  rw [scan_eq_ofPieces, ofPieces_of_writes written canonical rfl]

/-- A comment right behind a percent sign, in front of the name of a macro, and one
between two blocks. -/
theorem scan_canonical_annotated :
    let blocks : List Block :=
      [.parameter ["AMDOT".toList, "1,1,$1,0,0".toList], .word "D10".toList]
    (∀ block ∈ blocks, block.IsCanonical) ∧
      Writes blocks "%G04 a dot*\n AMDOT*1,1,$1,0,0 *%\r\nG04*\tD10*\n".toList ∧
      scan "%G04 a dot*\n AMDOT*1,1,$1,0,0 *%\r\nG04*\tD10*\n".toList = blocks := by
  intro blocks
  have canonical : ∀ block ∈ blocks, block.IsCanonical := by decide +kernel
  have dot : IsFiller (['G', '0', '4'] ++ " a dot".toList ++ '*' :: ['\n', ' ']) :=
    .comment (by decide) (.blank rfl (.blank rfl .nil))
  have between : IsFiller ('\r' :: '\n' :: (['G', '0', '4'] ++ [] ++ '*' :: ['\t'])) :=
    .blank rfl (.blank rfl (.comment (by decide) (.blank rfl .nil)))
  have last : IsFiller ['\n'] := .blank rfl .nil
  have noBlank : Text.AllBlank [] := List.forall_mem_nil _
  have oneBlank : Text.AllBlank [' '] := by decide
  have written :
      Writes blocks "%G04 a dot*\n AMDOT*1,1,$1,0,0 *%\r\nG04*\tD10*\n".toList := by
    convert Writes.parameter .nil (.cons dot noBlank (.cons .nil oneBlank (.nil .nil)))
      (.word between noBlank (.nil last)) using 1
    decide +kernel
  exact ⟨canonical, written, (scan_canonical.2 blocks canonical).2 _ written⟩

end Block

end Photoplot
