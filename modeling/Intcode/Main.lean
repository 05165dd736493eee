import Intcode.Command.Amplify
import Intcode.Command.Execute
import Intcode.Command.Gravity

/-!
# The program

The first word names one of the three commands. The files that the other words mention are read
beforehand; everything else is worked out by the command, with more steps than any run can take. A
file that may not be read is told apart from one that cannot even be found.
-/

namespace Intcode.Main

def locked (path : String) : IO (Except File.Obstacle File.Entry) := do
  try
    let _ ← IO.FS.realPath path
    return .ok .locked
  catch _ => return .error .denied

def probe (path : String) : IO (Except File.Obstacle File.Entry) := do
  try
    return .ok (.file (← IO.FS.readBinFile path))
  catch
    | .noFileOrDirectory .. => return .error .missing
    | .permissionDenied .. => return (← locked path)
    | .inappropriateType _ _ reason =>
      return if reason == "not a directory" then .error .throughFile else .ok .folder
    | e => throw e

def viewOf (paths : List String) : IO File.View := do
  let entries ← paths.mapM fun path => return (path, ← probe path)
  return { follow := fun path => (entries.lookup path).getD (.error .missing) }

def steps : Nat := 1000000000000000000

def carryOut (c : Command) (command : Nat → File.View → List String → Option Report)
    (words : List String) : IO UInt32 := do
  let files ← viewOf (CommandLine.mentionedPaths c.choices words)
  match command steps files words with
  | none =>
    IO.eprintln "The run did not end."
    return 1
  | some report =>
    IO.eprint report.errors
    IO.print report.output
    if report.resultMissing then IO.eprintln "The final memory has no first cell."
    match report.escaped with
    | some (.unopened obstacle path) => IO.eprintln (File.openFailure obstacle path)
    | some .undecodable => IO.eprintln "A file does not hold valid UTF-8."
    | none => pure ()
    return report.exit.toUInt32

def commands : List (Command × (Nat → File.View → List String → Option Report)) :=
  [(Command.executeCommand, Command.execute),
   (Command.amplifyCommand, Command.amplify),
   (Command.gravityCommand, Command.gravity)]

end Intcode.Main

open Intcode.Main in
def main (args : List String) : IO UInt32 := do
  match args with
  | [] => pure ()
  | name :: words =>
    for (c, command) in commands do
      if c.name == name then return ← carryOut c command words
  IO.eprintln ("Name one of the commands " ++ ", ".intercalate (commands.map (·.1.name)))
  return 2
