import Intcode.Activity
import Intcode.Amplifier.Failure
import Intcode.Machine.Run

/-!
# Amplifiers in a row

Each amplifier is a fresh machine that gets its phase and the signal so far, runs to its end, and
passes its first output on.
-/

namespace Intcode.Amplifier

def outputs (fuel : Nat) (program : Memory) (inputs : List Int) : Activity Failure (List Int) :=
  fun log =>
    match (Machine.start program inputs false).runToCompletion fuel false with
    | none => none
    | some (m, result) => some (result.mapError .trapped, log ++ m.journal)

def chain (fuel : Nat) (program : Memory) : (phases : List Int) → (signal : Int) → Activity Failure Int
  | [], signal => pure signal
  | phase :: phases, signal => do
    match ← outputs fuel program [phase, signal] with
    | [] => .fail (.silent phase)
    | first :: _ => chain fuel program phases first

end Intcode.Amplifier
