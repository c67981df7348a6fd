import Photoplot.Source.Block
import Photoplot.Source.Parameter
import Photoplot.Source.Word

/-! # Programs

The commands of a whole layer. What cannot be read is noted and left out. -/

namespace Photoplot.Program

variable {K : Type} [Scalar K]

def ofParameter (content : Text) : Noted (List (Command K)) := do
  match Parameter.read content with
  | .ok command => return command.toList
  | .error error =>
      Noted.note (.skippedParameter content error)
      return []

def ofWord (word : Text) : Noted (List (Command K)) := do
  match ← Word.read word with
  | .ok commands => return commands
  | .error error =>
      Noted.note (.skippedWord word error)
      return []

/-- An aperture macro takes up the whole parameter block that it begins. -/
def ofBlock : Block → Noted (List (Command K))
  | .word word => ofWord word
  | .parameter commands =>
      match commands with
      | ['A', 'M'] :: _ => do
          Noted.note .templateWithoutName
          return []
      | ('A' :: 'M' :: name) :: body => return [.defineTemplate name body]
      | _ => Noted.concat (commands.map ofParameter)

def ofBlocks (blocks : List Block) : Noted (List (Command K)) :=
  Noted.concat (blocks.map ofBlock)

end Photoplot.Program
