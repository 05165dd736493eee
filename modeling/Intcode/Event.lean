import Intcode.Instruction
import Intcode.Machine.Status
import Intcode.Text.Sequence

/-!
# Events

Everything the library reports while it works, as data. `Event.level` says how important an event
is and `Event.text` how it reads; who shows which levels is decided elsewhere. As in the messages of
faults, there is no limit on the digits of an integer.
-/

namespace Intcode

inductive Level where
  | debug
  | info
  | error
deriving DecidableEq

namespace Level

def name : Level → String
  | debug => "DEBUG"
  | info => "INFO"
  | error => "ERROR"

def rank : Level → Nat
  | debug => 0
  | info => 1
  | error => 2

end Level

inductive Event where
  | executing (ip : Int) (ins : Instruction)
  | halted (ip : Int)
  | trapped (trap : Trap)
  | snapshot (ip : Int) (status : Status) (pending outputs : List Int)
  | tried (ordering : List Int) (signal : Int)
  | skipped (noun verb : Int) (fault : Fault)
  | loadingProgram (path : String)
  | loadedProgram (cells : Nat)
  | loadingSettings (path : String)
  | notice (text : String)
  | failure (text : String)
deriving DecidableEq

namespace Event

def level : Event → Level
  | executing .. | snapshot .. | tried .. | skipped .. | loadingProgram _ | loadedProgram _
  | loadingSettings _ => .debug
  | halted _ | notice _ => .info
  | trapped _ | failure _ => .error

def text : Event → String
  | executing ip ins => "@" ++ toString ip ++ ": " ++ ins.text
  | halted ip => "Machine halted at IP:" ++ toString ip
  | trapped trap => "Machine fault at IP:" ++ toString trap.ip ++ ": " ++ trap.fault.message
  | snapshot ip status pending outputs =>
    "IP:" ++ toString ip ++ " " ++ status.name ++ " IN:" ++ Text.integers pending ++
      " OUT:" ++ Text.integers outputs
  | tried ordering signal =>
    "Phases " ++ Text.tuple (ordering.map toString) ++ " -> " ++ toString signal
  | skipped noun verb fault =>
    "Noun " ++ toString noun ++ " verb " ++ toString verb ++ " faulted: " ++ fault.message
  | loadingProgram path => "Loading program " ++ path
  | loadedProgram cells => "Loaded " ++ toString cells ++ " cells"
  | loadingSettings path => "Loading settings from " ++ path
  | notice text => text
  | failure text => text

end Event

abbrev Log := Array Event

end Intcode
