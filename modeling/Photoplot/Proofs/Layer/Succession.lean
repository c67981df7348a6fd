import Photoplot.Proofs.Plot.Operation
import Photoplot.Proofs.Source.Block
import Photoplot.Layer
import Photoplot.Scalar.Binary64

/-! # Layers in a row

A text that leaves nothing open may be followed by any other text: blocks, commands
and warnings come one after the other, and the machine goes on where it stood. Behind
the end of the file it does not go on at all. -/

namespace Photoplot

/-! ## Notes in a row -/

namespace Noted

theorem concat_append {α : Type} (first second : List (Noted (List α))) :
    concat (first ++ second) = concat [concat first, concat second] := by
  simp [concat]

end Noted

namespace Program

variable {K : Type} [Scalar K]

theorem ofBlocks_append (first second : List Block) :
    ofBlocks (K := K) (first ++ second) = .concat [ofBlocks first, ofBlocks second] := by
  rw [ofBlocks, List.map_append, Noted.concat_append, ofBlocks, ofBlocks]

theorem ofBlocks_end : ofBlocks (K := K) [.word "M02".toList] = pure [.endOfFile] := rfl

end Program

/-! ## Runs in a row -/

namespace Machine

variable {K : Type} [PlaneScalar K]

theorem run_append_bind (machine : Machine K) (first second : List (Command K)) :
    machine.run (first ++ second) = machine.run first >>= fun left =>
      left.run second := by
  induction first generalizing machine with
  | nil => rfl
  | cons command rest induction =>
      rw [List.cons_append, run_cons_bind, run_cons_bind, Noted.bind_bind]
      simp only [induction]

/-- The commands behind the end of the file do nothing and note nothing. -/
theorem run_endOfFile_cons (machine : Machine K) (rest : List (Command K)) :
    machine.run (.endOfFile :: rest) = machine.step .endOfFile := by
  have stays := run_of_ended machine.ended_step_endOfFile rest
  rw [run_cons_bind]
  ext1 <;> simp [stays]

end Machine

/-! ## Texts in a row -/

namespace Layer

variable {K : Type} [PlaneScalar K]

def commands (text : Text) : Noted (List (Command K)) :=
    Program.ofBlocks (Block.scan text)

theorem plot_eq_ok {text : Text} (ended : '*' ∈ text)
    (some : (commands (K := K) text).value ≠ []) :
    (plot (K := K) text).value = .ok (Machine.plot (commands text).value).value := by
  have contains : text.contains '*' = true := by simpa using ended
  have notEmpty :
      (Program.ofBlocks (K := K) (Block.scan text)).value.isEmpty = false := by
    simpa [commands] using some
  simp only [plot, contains, Bool.not_true, Bool.false_eq_true, if_false,
    Noted.value_bind, notEmpty, commands]
  rfl

theorem commands_append {first : Text} (complete : Block.IsComplete first)
    (second : Text) :
    commands (K := K) (first ++ second) = .concat [commands first, commands second] := by
  rw [commands, Block.scan_append complete, Program.ofBlocks_append, commands, commands]

def terminator : Text := "M02*".toList

theorem commands_terminator_append (text : Text) :
    (commands (K := K) (terminator ++ text)).value =
      .endOfFile :: (commands text).value := by
  have complete : Block.IsComplete terminator := by decide
  have ended : Block.scan terminator = [.word "M02".toList] := by decide +kernel
  rw [commands_append complete, commands, ended, Program.ofBlocks_end]
  simp [Noted.concat]

theorem run_commands_append {first : Text} (complete : Block.IsComplete first)
    (second : Text) (machine : Machine K) :
    machine.run (commands (first ++ second)).value =
      machine.run (commands first).value >>= fun left =>
        left.run (commands second).value := by
  rw [commands_append complete, ← Machine.run_append_bind]
  simp [Noted.concat]

/-- The plot of a complete text with the end of the file behind it, and anything behind
that. -/
theorem plot_terminated {first : Text} (complete : Block.IsComplete first) (rest : Text) :
    (plot (K := K) (first ++ (terminator ++ rest))).value =
      .ok ((Machine.start.run (commands first).value >>= fun left =>
        left.step .endOfFile) >>=
        Machine.finish).value := by
  have some : (commands (K := K) (first ++ (terminator ++ rest))).value ≠ [] := by
    simp [commands_append complete, Noted.concat, commands_terminator_append]
  rw [plot_eq_ok (by simp [terminator]) some, Machine.plot, run_commands_append complete,
    commands_terminator_append]
  simp only [Machine.run_endOfFile_cons]

/-- Blocks, commands, warnings and runs of a complete text and any other one are those of
the first and then those of the second; and nothing behind the end of the file matters. -/
theorem succession {first : Text} (complete : Block.IsComplete first) (second : Text) :
    Block.scan (first ++ second) = Block.scan first ++ Block.scan second ∧
      commands (K := K) (first ++ second) = .concat [commands first, commands second] ∧
      (∀ machine : Machine K,
        machine.run (commands (first ++ second)).value =
          machine.run (commands first).value >>= fun left =>
            left.run (commands second).value) ∧
      ∃ plot, (Layer.plot (K := K) (first ++ terminator)).value = .ok plot ∧
        (Layer.plot (first ++ terminator ++ second)).value = .ok plot := by
  refine ⟨Block.scan_append complete second, commands_append complete second,
    run_commands_append complete second, _, plot_terminated complete [], ?_⟩
  rw [List.append_assoc]
  exact plot_terminated complete second

/-- A pad is plotted as before when more pads follow, a word that cannot be read and a
percent sign without another. -/
theorem succession_pad :
    let pad : Text := "%FSLAX24Y24*MOMM*%%ADD10C,1*%\nD10*X0Y0D03*\r\n ".toList
    let rest : Text := "D03*%G04 %*X!%D03*".toList
    Block.IsComplete pad ∧
      Block.scan (pad ++ rest) = Block.scan pad ++ Block.scan rest ∧
      commands (K := Float) (pad ++ rest) = .concat [commands pad, commands rest] ∧
      ∃ plot, (Layer.plot (K := Float) (pad ++ terminator)).value = .ok plot ∧
        (Layer.plot (pad ++ terminator ++ rest)).value = .ok plot := by
  intro pad rest
  have complete : Block.IsComplete pad := by decide +kernel
  have row := succession (K := Float) complete rest
  exact ⟨complete, row.1, row.2.1, row.2.2.2⟩

end Layer

end Photoplot
