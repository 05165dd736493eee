/-!
# Faults

What can go wrong while an instruction is read or carried out, and where it went wrong. Messages
write addresses and values out in full, without the limit on digits that a runtime may set.
-/

namespace Intcode

inductive Fault where
  | outOfBounds (address : Int)
  | invalidInstruction (raw : Int)
  | inputStarved
deriving DecidableEq

namespace Fault

def name : Fault → String
  | outOfBounds _ => "OutOfBounds"
  | invalidInstruction _ => "InvalidInstruction"
  | inputStarved => "InputStarved"

def message : Fault → String
  | outOfBounds a => "Address " ++ toString a ++ " is out of bounds"
  | invalidInstruction raw => "Invalid instruction " ++ toString raw
  | inputStarved => "Input requested while the input queue is empty"

end Fault

structure Trap where
  fault : Fault
  ip : Int
deriving DecidableEq

end Intcode
