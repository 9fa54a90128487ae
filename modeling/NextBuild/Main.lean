import NextBuild.CommandLine.Machine

/-!
# The program

Runs one command line on the machine that a file describes, prints what comes of it, and writes the
changed files back.
-/

namespace NextBuild

/-- The rest of the standard input. -/
partial def readInput (input : IO.FS.Stream) (text : String) : IO String := do
  let line ← input.getLine
  if line.isEmpty then return text
  readInput input (text ++ line)

/-- The file that describes the machine. -/
def machinePath : IO String := do
  return (← IO.getEnv "REVSEL_MACHINE").getD "machine.json"

/-- Run a command line on the machine of a file. -/
def runOnMachine (path : String) (words : List String) : IO UInt32 := do
  let before ← IO.FS.readFile path
  match Machine.ofText? before with
  | none =>
    IO.eprintln (path ++ ": this file describes no machine")
    return 1
  | some m =>
    let input ← if m.readsInput words then readInput (← IO.getStdin) "" else pure ""
    let (outcome, files) := m.run words input
    if let some after := Machine.updatedText? before files then
      IO.FS.writeFile path after
    IO.print outcome.streams.out
    IO.eprint outcome.streams.err
    return outcome.exitCode.toUInt32

end NextBuild

def main (words : List String) : IO UInt32 := do
  NextBuild.runOnMachine (← NextBuild.machinePath) words
