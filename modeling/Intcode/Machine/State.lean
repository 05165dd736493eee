import Intcode.Machine.Effect
import Intcode.Machine.Status

/-!
# Machine states and single steps

`State.next` is one instruction cycle. It always returns a state, together with a description of
what happened; on a state that is no longer running it changes nothing.
-/

namespace Intcode

structure State where
  memory : Memory
  ip : Int := 0
  pending : List Int := []
  outputs : Array Int := #[]
  status : Status := .running
deriving DecidableEq

inductive Step where
  | executed (ins : Instruction) (effect : Effect)
  | halted
  | trapped (decoded : Option Instruction) (trap : Trap)
  | idle
  | refused (trap : Trap)
deriving DecidableEq

namespace Step

def reply : Step → Except Trap (Option Int)
  | executed _ effect => .ok effect.emitted?
  | halted | idle => .ok none
  | trapped _ trap | refused trap => .error trap

end Step

namespace State

def apply (s : State) (ins : Instruction) : Effect → State
  | .store a v => { s with memory := s.memory.set a v, ip := s.ip + ins.size }
  | .receive a v =>
    { s with memory := s.memory.set a v, pending := s.pending.tail, ip := s.ip + ins.size }
  | .emit v => { s with outputs := s.outputs.push v, ip := s.ip + ins.size }
  | .jump a => { s with ip := a }
  | .pass => { s with ip := s.ip + ins.size }

def trap (s : State) (decoded : Option Instruction) (fault : Fault) : State × Step :=
  ({ s with status := .faulted ⟨fault, s.ip⟩ }, .trapped decoded ⟨fault, s.ip⟩)

def next (s : State) : State × Step :=
  match s.status with
  | .halted => (s, .idle)
  | .faulted trap => (s, .refused trap)
  | .running =>
    match s.memory.decode s.ip with
    | .error fault => s.trap none fault
    | .ok none => ({ s with status := .halted }, .halted)
    | .ok (some ins) =>
      match ins.effect s.memory s.pending with
      | .error fault => s.trap ins fault
      | .ok effect => (s.apply ins effect, .executed ins effect)

def feed (s : State) (xs : List Int) : State :=
  { s with pending := s.pending ++ xs }

end State

end Intcode
