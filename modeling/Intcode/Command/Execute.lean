import Intcode.Command.Program
import Intcode.Machine.Run
import Intcode.Settings.Document

/-!
# The command that runs a program

Settings come from a file, if one is named, and then from the options, which win.
-/

namespace Intcode.Command

open CommandLine (Invocation)

def executeCommand : Command where
  name := "intmachine"
  choices := [
    verboseChoice,
    { long := "config", short := some 'c', kind := .path, placeholder := "PATH",
      help := ["TOML settings file"] },
    { long := "input", short := some 'i', kind := .integers, placeholder := "INTEGER",
      help := ["Input value, may repeat"] },
    { long := "dump", help := ["Print final memory instead of outputs"] },
    { long := "trace", help := ["Log every executed instruction"] }]

def turnedOn (i : Invocation) (name : String) : Option Bool :=
  if i.has name then some true else none

def optionSettings (i : Invocation) : Settings.Given where
  verbose := turnedOn i "verbose"
  trace := turnedOn i "trace"
  dumpMemory := turnedOn i "dump"
  inputs := match i.integers "input" with
    | [] => none
    | inputs => some inputs

def settingsEnding : Settings.LoadError → Ending
  | .unreadable cause => .escaped cause
  | .mistake cause => .usage (.badSettings cause.message)
  | .invalid cause => .usage (.badSettings cause.message)

def fileSettings (files : File.View) (i : Invocation) : Activity Ending Settings :=
  match i.path? "config" with
  | none => pure {}
  | some written => (Settings.load files (.ofString written) {}).mapError settingsEnding

def executeJob (fuel : Nat) (files : File.View) (settings : Settings) (path : File.Path) : Job := do
  .report (.notice "INTMACHINE")
  let program ← loadProgram files path
  let run : Activity Ending (Except Trap (List Int)) := fun log =>
    match Machine.execute fuel program settings.inputs settings.dumpMemory settings.trace with
    | none => none
    | some (m, result) => some (.ok result, log ++ m.journal)
  match ← run with
  | .ok values => return Listing.print values ++ "\n"
  | .error trap => Job.giveUp (haltedOn trap.fault (toString trap.ip)) .executionError

/-- The report on running a program with the given words on the command line. The file of settings
is read before the console is set up. -/
def execute (fuel : Nat) (files : File.View) (words : List String) : Option Report :=
  let c := executeCommand
  match CommandLine.invoke files c.choices words with
  | .error refusal => some (c.refusal refusal)
  | .ok i =>
    match (fileSettings files i).perform with
    | none => none
    | some (result, log) =>
      let (console, before) := Console.unsettled.emit log
      match result with
      | .error ending => some (c.reportOn before (.error ending))
      | .ok settings =>
        let settings := settings.update (optionSettings i)
        let console := console.setUp (least (settings.verbose || settings.trace))
        c.carryOut console (executeJob fuel files settings (.ofString i.operand))

end Intcode.Command
