import Intcode.Amplifier.Search
import Intcode.Command.Program

/-! # The command that looks for the best ordering of phases -/

namespace Intcode.Command

def amplifyCommand : Command where
  name := "intmachine-amplify"
  choices := [
    verboseChoice,
    { long := "feedback", help := ["Wire the amplifiers into a feedback loop"] },
    { long := "phases", kind := .phases, placeholder := "TEXT",
      help := ["Phase settings to permute, defaults to 0-4 or 5-9 with", "--feedback"] }]

def defaultPhases (feedback : Bool) : List Int :=
  if feedback then [5, 6, 7, 8, 9] else [0, 1, 2, 3, 4]

def amplifyJob (fuel : Nat) (files : File.View) (path : File.Path) (phases : List Int)
    (feedback : Bool) : Job := do
  .report (.notice "INTMACHINE AMPLIFIERS")
  let program ← loadProgram files path
  let search : Activity Ending (Except Amplifier.Failure Amplifier.Best) := fun log =>
    match Amplifier.search fuel program phases feedback log with
    | none => none
    | some (result, log) => some (.ok result, log)
  match ← search with
  | .ok best =>
    return "Max signal: " ++ toString best.signal ++ "\nPhases: " ++ Listing.print best.ordering ++ "\n"
  | .error failure => Job.giveUp ("Amplifier failure: " ++ failure.message) .executionError

def amplify (fuel : Nat) (files : File.View) (words : List String) : Option Report :=
  let c := amplifyCommand
  match CommandLine.invoke files c.choices words with
  | .error refusal => some (c.refusal refusal)
  | .ok i =>
    let feedback := i.has "feedback"
    let phases := (i.phases? "phases").getD (defaultPhases feedback)
    c.carryOut (.showing (least (i.has "verbose")))
      (amplifyJob fuel files (.ofString i.operand) phases feedback)

end Intcode.Command
