import Intcode.Activity
import Intcode.Machine.Run

/-!
# Nouns and verbs

A program can be patched with a noun and a verb in its second and third cell; after a run its
first cell holds the result. `find` looks for the first pair, in lexicographic order, whose result
is a given target.
-/

namespace Intcode.Gravity

def nounAddress : Int := 1
def verbAddress : Int := 2
def resultAddress : Nat := 0
def defaultTarget : Int := 19690720
def defaultLimit : Int := 99

inductive Failure where
  | unpatchable (fault : Fault)
  | trapped (trap : Trap)
  | noResult
deriving DecidableEq

def Failure.fault? : Failure → Option Fault
  | unpatchable fault => some fault
  | trapped trap => some trap.fault
  | noResult => none

def patch (program : Memory) (noun verb : Int) : Except Fault Memory := do
  let memory ← program.write nounAddress noun
  memory.write verbAddress verb

def runWith (fuel : Nat) (program : Memory) (noun verb : Int) : Activity Failure Int :=
  fun log =>
    match patch program noun verb with
    | .error fault => some (.error (.unpatchable fault), log)
    | .ok memory =>
      match (Machine.start memory [] false).runToCompletion fuel true with
      | none => none
      | some (m, .error trap) => some (.error (.trapped trap), log ++ m.journal)
      | some (m, .ok cells) =>
        match cells[resultAddress]? with
        | some value => some (.ok value, log ++ m.journal)
        | none => some (.error .noResult, log ++ m.journal)

/-- Tries one pair: `true` if it gives the target. A fault is reported and counts as a miss. -/
def hits (fuel : Nat) (program : Memory) (target noun verb : Int) : Activity Failure Bool :=
  fun log =>
    match runWith fuel program noun verb log with
    | none => none
    | some (.ok value, log) => some (.ok (value == target), log)
    | some (.error failure, log) =>
      match failure.fault? with
      | some fault => some (.ok false, log.push (.skipped noun verb fault))
      | none => some (.error failure, log)

def findVerb (fuel : Nat) (program : Memory) (target noun : Int) :
    (remaining : Nat) → (verb : Int) → Activity Failure (Option (Int × Int))
  | 0, _, log => some (.ok none, log)
  | remaining + 1, verb, log =>
    match hits fuel program target noun verb log with
    | none => none
    | some (.error failure, log) => some (.error failure, log)
    | some (.ok true, log) => some (.ok (some (noun, verb)), log)
    | some (.ok false, log) => findVerb fuel program target noun remaining (verb + 1) log

def findNoun (fuel : Nat) (program : Memory) (target : Int) (verbs : Nat) :
    (remaining : Nat) → (noun : Int) → Activity Failure (Option (Int × Int))
  | 0, _, log => some (.ok none, log)
  | remaining + 1, noun, log =>
    match findVerb fuel program target noun verbs 0 log with
    | some (.ok none, log) => findNoun fuel program target verbs remaining (noun + 1) log
    | answer => answer

def find (fuel : Nat) (program : Memory) (target limit : Int) :
    Activity Failure (Option (Int × Int)) :=
  let count := (limit + 1).toNat
  findNoun fuel program target count count 0

end Intcode.Gravity
