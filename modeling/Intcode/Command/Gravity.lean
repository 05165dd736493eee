import Intcode.Command.Program
import Intcode.Gravity

/-! # The command for nouns and verbs: one run with a given pair, or a search for a pair -/

namespace Intcode

def Gravity.Failure.message? : Gravity.Failure → Option String
  | .trapped trap => some (Command.haltedOn trap.fault (toString trap.ip))
  | .unpatchable fault => some (Command.haltedOn fault "None")
  | .noResult => none

namespace Command

def gravityCommand : Command where
  name := "intmachine-gravity"
  choices := [
    verboseChoice,
    { long := "noun", kind := .integer, placeholder := "INTEGER", help := ["Run once with this noun"] },
    { long := "verb", kind := .integer, placeholder := "INTEGER", help := ["Run once with this verb"] },
    { long := "target", kind := .integer, placeholder := "INTEGER",
      help := ["Search for the noun and verb producing this value  [default:",
        toString Gravity.defaultTarget ++ "]"] },
    { long := "limit", kind := .integer, placeholder := "INTEGER",
      help := ["Largest noun and verb to try  [default: " ++ toString Gravity.defaultLimit ++ "]"] }]

def pairText (noun verb : Int) : String :=
  "Noun: " ++ toString noun ++ ", verb: " ++ toString verb ++ "\n100 * noun + verb = " ++
    toString (100 * noun + verb) ++ "\n"

def orGiveUp (work : Activity Gravity.Failure α) : Activity Ending α :=
  fun log =>
    match work log with
    | none => none
    | some (.ok a, log) => some (.ok a, log)
    | some (.error failure, log) =>
      match failure.message? with
      | some text => Job.giveUp text .executionError log
      | none => some (.error .resultMissing, log)

def loadPatchable (files : File.View) (path : File.Path) : Activity Ending Memory := do
  let program ← loadProgram files path
  if program.size ≤ 2 then
    Job.giveUp ("Program is too short to patch, " ++ toString program.size ++ " cells") .loadError
  else
    return program

def pairJob (fuel : Nat) (files : File.View) (path : File.Path) (noun verb : Int) : Job := do
  let program ← loadPatchable files path
  let value ← orGiveUp (Gravity.runWith fuel program noun verb)
  return toString value ++ "\n"

def searchJob (fuel : Nat) (files : File.View) (path : File.Path) (target limit : Int) : Job := do
  let program ← loadPatchable files path
  match ← orGiveUp (Gravity.find fuel program target limit) with
  | some (noun, verb) => return pairText noun verb
  | none =>
    .report (.notice ("No noun and verb up to " ++ toString limit ++ " produce " ++ toString target))
    .fail (.exit .notFound)

def gravityJob (fuel : Nat) (files : File.View) (path : File.Path) (noun verb : Option Int)
    (target limit : Int) : Job := do
  .report (.notice "INTMACHINE GRAVITY ASSIST")
  match noun, verb with
  | some noun, some verb => pairJob fuel files path noun verb
  | none, none => searchJob fuel files path target limit
  | _, _ => .fail (.usage (.unpaired "--noun" "--verb"))

def gravity (fuel : Nat) (files : File.View) (words : List String) : Option Report :=
  let c := gravityCommand
  match CommandLine.invoke files c.choices words with
  | .error refusal => some (c.refusal refusal)
  | .ok i =>
    c.carryOut (.showing (least (i.has "verbose")))
      (gravityJob fuel files (.ofString i.operand) (i.integer? "noun") (i.integer? "verb")
        ((i.integer? "target").getD Gravity.defaultTarget)
        ((i.integer? "limit").getD Gravity.defaultLimit))

end Command

end Intcode
