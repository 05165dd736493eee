import Intcode.Machine

/-!
# Runs

Running a machine to its end, or until it emits. A run gets a number of steps it may take; it
answers `none` when that number is used up while the machine still runs, so that a run that ends
is told apart from one that has not ended yet.
-/

namespace Intcode

inductive Pause where
  | output (value : Int)
  | halted (memory outputs : List Int)
deriving DecidableEq

namespace Machine

/-- Steps until the machine stops or, if `pausing`, until it emits a value. -/
def proceed (pausing : Bool) : Nat → Machine → Option (Machine × Except Trap (Option Int))
  | fuel, m =>
    match m.status with
    | .halted => some (m, .ok none)
    | .faulted trap => some (m, .error trap)
    | .running =>
      match fuel with
      | 0 => none
      | fuel + 1 =>
        match m.next with
        | (m, .error trap) => some (m, .error trap)
        | (m, .ok none) => proceed pausing fuel m
        | (m, .ok (some value)) =>
          if pausing then some (m, .ok (some value)) else proceed pausing fuel m

def result (m : Machine) (dump : Bool) : List Int :=
  if dump then m.memory.toList else m.outputs.toList

def runToCompletion (fuel : Nat) (dump : Bool) (m : Machine) :
    Option (Machine × Except Trap (List Int)) :=
  match m.proceed false fuel with
  | none => none
  | some (m, .error trap) => some (m, .error trap)
  | some (m, .ok _) => some (m, .ok (m.result dump))

def runUntilOutput (fuel : Nat) (inputs : List Int) (m : Machine) :
    Option (Machine × Except Trap Pause) :=
  match (m.feed inputs).proceed true fuel with
  | none => none
  | some (m, .error trap) => some (m, .error trap)
  | some (m, .ok (some value)) => some (m, .ok (.output value))
  | some (m, .ok none) => some (m, .ok (.halted m.memory.toList m.outputs.toList))

/-- Runs a fresh machine to its end. A traced run closes with a snapshot, however it ended. -/
def execute (fuel : Nat) (program : Memory) (inputs : List Int) (dump trace : Bool) :
    Option (Machine × Except Trap (List Int)) :=
  match (start program inputs trace).runToCompletion fuel dump with
  | none => none
  | some (m, result) => some (if trace then m.dump else m, result)

end Machine

end Intcode
