import Intcode.Command.Report
import Intcode.Program

/-! # Programs as operands of commands -/

namespace Intcode

def Program.LoadError.message? : Program.LoadError → Option String
  | .unreadable (.unopened obstacle path) => some (File.openFailure obstacle path)
  | .unreadable .undecodable => none
  | .malformed cause => some cause.message

namespace Command

/-- Loads the program that a command names. A program that cannot be opened or read is a failure
with a message, one whose bytes are no text escapes. -/
def loadProgram (files : File.View) (path : File.Path) : Activity Ending Memory :=
  fun log =>
    match Program.load files path log with
    | none => none
    | some (.ok program, log) => some (.ok program, log)
    | some (.error e, log) =>
      match e.message? with
      | some text => Job.giveUp ("Cannot load " ++ path.text ++ ": " ++ text) .loadError log
      | none => some (.error (.escaped .undecodable), log)

def haltedOn (fault : Fault) (ip : String) : String :=
  "Execution halted on " ++ fault.name ++ " at IP:" ++ ip ++ ": " ++ fault.message

def verboseChoice : CommandLine.Choice where
  long := "verbose"
  short := some 'v'
  help := ["Sets logging level to debug"]

def least (verbose : Bool) : Level :=
  if verbose then .debug else .info

end Command

end Intcode
