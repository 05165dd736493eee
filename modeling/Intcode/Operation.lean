/-!
# Operations and operand modes

The two lowest decimal digits of an instruction cell name one of nine operations; every digit
above them gives the mode of one operand, lowest digit first. Both readings use floor division
and remainder, so they are defined on every integer.
-/

namespace Intcode

inductive Operation where
  | add
  | multiply
  | input
  | output
  | jumpIfTrue
  | jumpIfFalse
  | lessThan
  | equals
  | halt
deriving DecidableEq

namespace Operation

def all : List Operation :=
  [add, multiply, input, output, jumpIfTrue, jumpIfFalse, lessThan, equals, halt]

def code : Operation → Nat
  | add => 1
  | multiply => 2
  | input => 3
  | output => 4
  | jumpIfTrue => 5
  | jumpIfFalse => 6
  | lessThan => 7
  | equals => 8
  | halt => 99

def mnemonic : Operation → String
  | add => "ADD"
  | multiply => "MUL"
  | input => "INP"
  | output => "OUT"
  | jumpIfTrue => "JIT"
  | jumpIfFalse => "JIF"
  | lessThan => "LES"
  | equals => "EQL"
  | halt => "HLT"

def operandCount : Operation → Nat
  | add | multiply | lessThan | equals => 3
  | jumpIfTrue | jumpIfFalse => 2
  | input | output => 1
  | halt => 0

def writesResult : Operation → Bool
  | add | multiply | input | lessThan | equals => true
  | output | jumpIfTrue | jumpIfFalse | halt => false

def ofCode? (n : Nat) : Option Operation :=
  all.find? fun op => op.code == n

theorem mem_all (op : Operation) : op ∈ all := by
  cases op <;> decide

theorem code_injective {a b : Operation} (h : a.code = b.code) : a = b := by
  cases a <;> cases b <;> first | rfl | exact absurd h (by decide)

theorem code_lt (op : Operation) : op.code < 100 := by
  cases op <;> decide

theorem ofCode?_code (op : Operation) : ofCode? op.code = some op := by
  cases op <;> rfl

theorem ofCode?_eq_some_iff {n : Nat} {op : Operation} : ofCode? n = some op ↔ op.code = n := by
  constructor
  · intro h
    simpa using List.find?_some h
  · rintro rfl
    exact ofCode?_code op

end Operation

inductive Mode where
  | position
  | immediate
deriving DecidableEq

namespace Mode

def all : List Mode := [position, immediate]

def digit : Mode → Nat
  | position => 0
  | immediate => 1

def name : Mode → String
  | position => "POSITION"
  | immediate => "IMMEDIATE"

def ofDigit? : Int → Option Mode
  | 0 => some position
  | 1 => some immediate
  | _ => none

theorem ofDigit?_eq_some_iff {d : Int} {m : Mode} : ofDigit? d = some m ↔ d = m.digit := by
  constructor
  · intro h
    unfold ofDigit? at h
    split at h <;> cases h <;> rfl
  · rintro rfl
    cases m <;> rfl

end Mode

def opcodeBase : Nat := 100

def modeBase : Nat := 10

def modeDigit (raw : Int) (i : Nat) : Int :=
  raw / opcodeBase / (Nat.pow modeBase i : Nat) % modeBase

end Intcode
