import Intcode.Instruction

/-!
# Effects

What an instruction does, worked out before anything is changed. `Instruction.effect` makes every
check that can fail; the effect it returns can then be applied without further checks, so an
instruction either acts in full or not at all.
-/

namespace Intcode

inductive Effect where
  | store (address value : Int)
  | receive (address value : Int)
  | emit (value : Int)
  | jump (address : Int)
  | pass
deriving DecidableEq

namespace Effect

def emitted? : Effect → Option Int
  | emit v => some v
  | _ => none

end Effect

namespace Instruction

def combine (f : Int → Int → Int) (m : Memory) (xs : Vector Operand 3) : Except Fault Effect := do
  let a ← xs[0].load m
  let b ← xs[1].load m
  m.check xs[2].target
  return .store xs[2].target (f a b)

def branch (taken : Int → Bool) (m : Memory) (xs : Vector Operand 2) : Except Fault Effect := do
  let v ← xs[0].load m
  let destination ← xs[1].load m
  return if taken v then .jump destination else .pass

/-- An empty queue is noticed before a bad target. -/
def receive (m : Memory) (x : Operand) : List Int → Except Fault Effect
  | [] => .error .inputStarved
  | v :: _ => do
    m.check x.target
    return .receive x.target v

def effect (ins : Instruction) (m : Memory) (pending : List Int) : Except Fault Effect :=
  match ins with
  | ⟨.add, _, xs⟩ => combine (· + ·) m xs
  | ⟨.multiply, _, xs⟩ => combine (· * ·) m xs
  | ⟨.lessThan, _, xs⟩ => combine (fun a b => if a < b then 1 else 0) m xs
  | ⟨.equals, _, xs⟩ => combine (fun a b => if a = b then 1 else 0) m xs
  | ⟨.input, _, xs⟩ => receive m (xs : Vector Operand 1)[0] pending
  | ⟨.output, _, xs⟩ => return .emit (← (xs : Vector Operand 1)[0].load m)
  | ⟨.jumpIfTrue, _, xs⟩ => branch (· != 0) m xs
  | ⟨.jumpIfFalse, _, xs⟩ => branch (· == 0) m xs
  | ⟨.halt, h, _⟩ => absurd rfl h

end Instruction

end Intcode
