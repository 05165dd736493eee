import Intcode.Activity
import Intcode.Amplifier.Failure
import Intcode.Machine.Run

/-!
# Amplifiers in a ring

The machines take turns: the one at the head of the ring is fed the newest signal and runs until
it emits the next one, then goes to the back. The ring stops when a machine halts; the signal is
the last one emitted.
-/

namespace Intcode.Amplifier

def turn (fuel : Nat) : (turns : Nat) → (ring : List Machine) → (signal : Int) → (emitted : Bool) →
    Activity Failure Int
  | 0, _, _, _, _ => none
  | _, [], _, _, _ => none
  | turns + 1, m :: ring, signal, emitted, log =>
    match m.runUntilOutput fuel [signal] with
    | none => none
    | some (m, result) =>
      match m.takeJournal, result with
      | (_, journal), .error trap => some (.error (.trapped trap), log ++ journal)
      | (_, journal), .ok (.halted _ _) =>
        some (if emitted then .ok signal else .error .halted, log ++ journal)
      | (m, journal), .ok (.output next) => turn fuel turns (ring ++ [m]) next true (log ++ journal)

def ringOf (program : Memory) (phases : List Int) : List Machine :=
  phases.map fun phase => .start program [phase] false

def ring (fuel : Nat) (program : Memory) (phases : List Int) (signal : Int) : Activity Failure Int :=
  turn fuel fuel (ringOf program phases) signal false

end Intcode.Amplifier
