import Intcode.Activity
import Intcode.Amplifier.Chain
import Intcode.Amplifier.Ordering
import Intcode.Amplifier.Ring

/-!
# The best ordering of phases

Tries every ordering of the phases and keeps the first one with the largest signal. A failure of
one ordering is a failure of the search.
-/

namespace Intcode.Amplifier

structure Best where
  signal : Int
  ordering : List Int
deriving DecidableEq

/-- A later ordering has to be strictly better to be preferred. -/
def Best.improve (best : Option Best) (candidate : Best) : Best :=
  match best with
  | none => candidate
  | some best => if best.signal < candidate.signal then candidate else best

def attempt (run : List Int → Activity Failure Int) (best : Option Best) (ordering : List Int) :
    Activity Failure (Option Best) := do
  let signal ← run ordering
  .report (.tried ordering signal)
  return some (.improve best ⟨signal, ordering⟩)

def maximise (run : List Int → Activity Failure Int) (phases : List Int) : Activity Failure Best := do
  match ← foldOrderings (attempt run) none phases with
  | some best => return best
  | none => .fail .nothingToTry

def search (fuel : Nat) (program : Memory) (phases : List Int) (feedback : Bool) :
    Activity Failure Best :=
  maximise (fun ordering =>
    if feedback then ring fuel program ordering 0 else chain fuel program ordering 0) phases

end Intcode.Amplifier
