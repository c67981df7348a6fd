import Photoplot.CommandLine

/-! The program: it reads the files that its arguments name, and prints or
writes what comes of them. -/

namespace Photoplot.CommandLine

def readFile (name : Text) : IO (Option (List UInt8)) := do
  try
    let bytes ← IO.FS.readBinFile (String.ofList name)
    return some bytes.toList
  catch _ => return none

def report (failure : Failure) : IO UInt32 := do
  IO.eprintln ("Error: " ++ failure.message)
  return 1

def usage : String :=
  "usage: photoplot [--outline FILE] [--invert] [--padding NUMBER] [--mirror] " ++
    "[--config FILE] [-o FILE] [--pretty] INPUT"

def deliver (invocation : Invocation) (text : Text) : IO UInt32 := do
  match invocation.output with
  | none =>
      IO.println (String.ofList text)
      return 0
  | some name =>
      try
        IO.FS.writeFile (String.ofList name) (String.ofList text)
        IO.eprintln ("Written to " ++ String.ofList name)
        return 0
      catch _ => report .file

def execute (invocation : Invocation) : IO UInt32 := do
  let names := invocation.config.toList ++ [invocation.input] ++ invocation.outline.toList
  let contents ← names.mapM readFile
  let files : Files := fun name => ((names.zip contents).lookup name).join
  match run files invocation with
  | .error failure => report failure
  | .ok text => deliver invocation text

end Photoplot.CommandLine

def main (arguments : List String) : IO UInt32 := do
  match Photoplot.CommandLine.read? (arguments.map String.toList) with
  | none =>
      IO.eprintln Photoplot.CommandLine.usage
      return 2
  | some invocation => Photoplot.CommandLine.execute invocation
