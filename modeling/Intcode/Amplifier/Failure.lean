import Intcode.Fault

/-! # Why amplifiers give no signal -/

namespace Intcode.Amplifier

inductive Failure where
  | trapped (trap : Trap)
  | silent (phase : Int)
  | halted
  | nothingToTry
deriving DecidableEq

def Failure.message : Failure → String
  | trapped trap => trap.fault.message
  | silent phase => "Amplifier with phase " ++ toString phase ++ " produced no output"
  | halted => "Feedback loop halted before producing a signal"
  | nothingToTry => "No phase settings to try"

end Intcode.Amplifier
