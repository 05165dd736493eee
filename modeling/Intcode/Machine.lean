import Intcode.Event
import Intcode.Machine.State

/-!
# Machines

A machine is a state that keeps a journal of what it does. Tracing adds an entry for every
instruction that decodes and changes nothing else.
-/

namespace Intcode

namespace State

def snapshot (s : State) : Event :=
  .snapshot s.ip s.status s.pending s.outputs.toList

end State

namespace Step

def events (trace : Bool) (ip : Int) (after : State) : Step → List Event
  | executed ins _ => if trace then [.executing ip ins] else []
  | halted => [.halted ip]
  | trapped decoded trap =>
    (if trace then decoded.toList.map (.executing ip) else []) ++ [.trapped trap, after.snapshot]
  | idle | refused _ => []

end Step

structure Machine extends State where
  trace : Bool := false
  journal : Log := #[]
deriving DecidableEq

namespace Machine

def start (program : Memory) (inputs : List Int) (trace : Bool) : Machine :=
  { memory := program, pending := inputs, trace }

def next : Machine → Machine × Except Trap (Option Int)
  | ⟨state, trace, journal⟩ =>
    let ip := state.ip
    match state.next with
    | (after, step) => (⟨after, trace, journal ++ step.events trace ip after⟩, step.reply)

def feed (m : Machine) (xs : List Int) : Machine :=
  { m with toState := m.toState.feed xs }

def dump (m : Machine) : Machine :=
  { m with journal := m.journal.push m.snapshot }

def drain (m : Machine) : Machine × Array Int :=
  ({ m with outputs := #[] }, m.outputs)

def takeJournal (m : Machine) : Machine × Log :=
  ({ m with journal := #[] }, m.journal)

end Machine

end Intcode
