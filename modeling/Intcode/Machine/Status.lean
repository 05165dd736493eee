import Intcode.Fault

/-! # The status of a machine -/

namespace Intcode

inductive Status where
  | running
  | halted
  | faulted (trap : Trap)
deriving DecidableEq

namespace Status

def name : Status → String
  | running => "RUNNING"
  | halted => "HALTED"
  | faulted _ => "FAULTED"

end Status

end Intcode
