import Intcode.Memory
import Intcode.Operation

/-!
# Instructions

An instruction is an operation other than `halt` with exactly as many operands as it takes.
Decoding reads one from a memory without changing anything: first the instruction cell, then for
each operand its mode digit and its cell.
-/

namespace Intcode

/-- One operand: the contents of its cell, the mode it is read in, and where its cell lies. -/
structure Operand where
  value : Int
  mode : Mode
  position : Int
deriving DecidableEq

namespace Operand

def load (x : Operand) (m : Memory) : Except Fault Int :=
  match x.mode with
  | .immediate => .ok x.value
  | .position => m.read x.value

/-- The address the operand names as the place of a result: in immediate mode its own cell. -/
def target (x : Operand) : Int :=
  match x.mode with
  | .immediate => x.position
  | .position => x.value

def text (x : Operand) : String :=
  match x.mode with
  | .immediate => "#" ++ toString x.value
  | .position => "[" ++ toString x.value ++ "]"

end Operand

structure Instruction where
  operation : Operation
  ne_halt : operation ≠ .halt := by decide
  operands : Vector Operand operation.operandCount
deriving DecidableEq

namespace Instruction

def size (ins : Instruction) : Nat := 1 + ins.operation.operandCount

def resultAddress? (ins : Instruction) : Option Int :=
  if ins.operation.writesResult then ins.operands.toList.getLast?.map Operand.target else none

def text (ins : Instruction) : String :=
  " ".intercalate (ins.operation.mnemonic :: ins.operands.toList.map Operand.text)

end Instruction

/-- The operation an instruction cell asks for; negative cells ask for none. -/
def decodeOperation (raw : Int) : Except Fault Operation :=
  if raw < 0 then .error (.invalidInstruction raw)
  else
    match Operation.ofCode? (raw % opcodeBase).toNat with
    | some op => .ok op
    | none => .error (.invalidInstruction raw)

def decodeMode (raw : Int) (i : Nat) : Except Fault Mode :=
  match Mode.ofDigit? (modeDigit raw i) with
  | some mode => .ok mode
  | none => .error (.invalidInstruction raw)

namespace Memory

/-- Operand `i` of the instruction at `ip` whose cell holds `raw`: the mode first, then the cell. -/
def operand (m : Memory) (raw ip : Int) (i : Nat) : Except Fault Operand := do
  let mode ← decodeMode raw i
  let value ← m.read (ip + 1 + i)
  return ⟨value, mode, ip + 1 + i⟩

def operands (m : Memory) (raw ip : Int) : (n : Nat) → Except Fault (Vector Operand n)
  | 0 => .ok #v[]
  | n + 1 => do
    let xs ← m.operands raw ip n
    let x ← m.operand raw ip n
    return xs.push x

/-- The instruction at an address, or `none` where the cell asks to halt. -/
def decode (m : Memory) (ip : Int) : Except Fault (Option Instruction) := do
  let raw ← m.read ip
  let op ← decodeOperation raw
  if h : op = .halt then
    return none
  else
    let xs ← m.operands raw ip op.operandCount
    return some ⟨op, h, xs⟩

end Memory

end Intcode
