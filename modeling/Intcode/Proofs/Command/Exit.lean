import Intcode.Proofs.Amplifier.Maximum
import Intcode.Proofs.Command.Job

/-!
# Exit codes

What a command line that has been understood leads to: for each command the exit code and the text
on standard output, as a function of what the file holds and of what the runs come to.
-/

namespace Intcode.Command

open CommandLine (Invocation)

variable {c : Command} {console : Console} {exit : Nat} {output : String} {files : File.View}
  {path : File.Path} {program : Memory}

section Executing

variable {settings : Settings} {m : Machine} {result : Except Trap (List Int)}

def Leaves (settings : Settings) (program : Memory) (m : Machine) : Prop :=
  ∃ fuel result, Machine.execute fuel program settings.inputs settings.dumpMemory settings.trace =
    some (m, result)

theorem Leaves.stopped (h : Leaves settings program m) : m.status ≠ .running := by
  obtain ⟨fuel, result, hrun⟩ := h
  exact (Machine.answer_of_execute hrun).1

end Executing

section Amplifying

variable {phases : List Int} {feedback : Bool}

end Amplifying

section Assisting

variable {target limit : Int}

end Assisting

end Intcode.Command
