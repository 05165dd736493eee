import Intcode.Activity
import Intcode.CommandLine.Invocation
import Intcode.Console
import Intcode.File.View

/-!
# Commands and their reports

A command has a name and options. Carrying it out gives a report: an exit code and the texts for
standard output and standard error. A problem that the command has no message for escapes it: the
report carries the problem, and standard error only what was said before.
-/

namespace Intcode

open CommandLine (Choice UsageError)

inductive Exit where
  | success
  | loadError
  | interrupted
  | notFound
  | executionError
deriving DecidableEq

def Exit.code : Exit → Nat
  | success => 0
  | loadError => 1
  | interrupted => 3
  | notFound => 4
  | executionError => 100

structure Report where
  exit : Nat
  output : String := ""
  errors : String := ""
  escaped : Option File.Unreadable := none
  resultMissing : Bool := false
deriving DecidableEq

inductive Ending where
  | exit (exit : Exit)
  | usage (error : UsageError)
  | escaped (cause : File.Unreadable)
  | resultMissing

abbrev Job := Activity Ending String

def Job.giveUp (text : String) (exit : Exit) : Activity Ending α := do
  .report (.failure text)
  .fail (.exit exit)

structure Command where
  name : String
  choices : List Choice

namespace Command

def usage (c : Command) : String :=
  "Usage: " ++ c.name ++ " [OPTIONS] PROGRAM_FILENAME\n"

def pad (width : Nat) (s : String) : String :=
  s ++ String.ofList (List.replicate (width - s.length) ' ')

def optionHelp (width : Nat) (c : Choice) : String :=
  match c.help with
  | [] => "  " ++ c.usage ++ "\n"
  | first :: more =>
    "  " ++ pad width c.usage ++ first ++ "\n" ++
      String.join (more.map fun line => "  " ++ pad width "" ++ line ++ "\n")

def help (c : Command) : String :=
  let choices := c.choices ++ [CommandLine.helpChoice]
  let width := (choices.map fun c => c.usage.length).foldl max 0 + 2
  c.usage ++ "\nOptions:\n" ++ String.join (choices.map (optionHelp width))

def complaint (c : Command) (e : UsageError) : String :=
  (if e.remindsOfUsage then
    c.usage ++ "Try \u0027" ++ c.name ++ " --help\u0027 for help.\n\n"
  else "") ++ "Error: " ++ e.message ++ "\n"

def refusal (c : Command) : CommandLine.Refusal → Report
  | .help => { exit := 0, output := c.help }
  | .wrong e => { exit := 2, errors := c.complaint e }

def reportOn (c : Command) (before : String) : Except Ending String → Report
  | .ok output => { exit := Exit.success.code, output, errors := before }
  | .error (.exit exit) => { exit := exit.code, errors := before }
  | .error (.usage e) => { exit := 2, errors := before ++ c.complaint e }
  | .error (.escaped cause) => { exit := 1, errors := before, escaped := some cause }
  | .error .resultMissing => { exit := 1, errors := before, resultMissing := true }

def carryOut (c : Command) (console : Console) (job : Job) : Option Report :=
  match job.perform with
  | none => none
  | some (result, log) => some (c.reportOn (console.emit log).2 result)

end Command

end Intcode
