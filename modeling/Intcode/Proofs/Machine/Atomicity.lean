import Intcode.Proofs.Machine.Run

/-!
# Atomicity

A cycle that ends with a fault changes the status and nothing else. To say what this rules out,
the instructions are carried out here a second time, as actions that read, pop, write and emit at
once, in a fixed order, with nothing undone when a later action fails. The two ways agree, so no
instruction gets to act before its last check has passed.
-/

namespace Intcode

/-- A state in the middle of an instruction, with the pointer that is committed at its end. -/
structure Registers extends State where
  nextIp : Int

/-- Actions on the registers. What they have done stays done when a fault ends them. -/
abbrev InPlace := EStateM Fault Registers

namespace InPlace

def ofExcept {α : Type} : Except Fault α → InPlace α
  | .ok a => pure a
  | .error fault => throw fault

def load (x : Operand) : InPlace Int := do
  ofExcept (x.load (← get).memory)

def store (a v : Int) : InPlace Unit := do
  let memory ← ofExcept ((← get).memory.write a v)
  modify fun r => { r with memory }

def combine (f : Int → Int → Int) (xs : Vector Operand 3) : InPlace (Option Int) := do
  let a ← load (xs.get 0)
  let b ← load (xs.get 1)
  store (xs.get 2).target (f a b)
  return none

def branch (taken : Int → Bool) (xs : Vector Operand 2) : InPlace (Option Int) := do
  let v ← load (xs.get 0)
  let destination ← load (xs.get 1)
  if taken v then
    modify fun r => { r with nextIp := destination }
  return none

/-- The value leaves the queue before it is written. -/
def receive (x : Operand) : InPlace (Option Int) := do
  match (← get).pending with
  | [] => throw .inputStarved
  | v :: rest =>
    ofExcept ((← get).memory.check x.target)
    modify fun r => { r with pending := rest }
    store x.target v
    return none

def emit (x : Operand) : InPlace (Option Int) := do
  let v ← load x
  modify fun r => { r with outputs := r.outputs.push v }
  return some v

def instruction : Instruction → InPlace (Option Int)
  | ⟨.add, _, xs⟩ => combine (· + ·) xs
  | ⟨.multiply, _, xs⟩ => combine (· * ·) xs
  | ⟨.lessThan, _, xs⟩ => combine (fun a b => if a < b then 1 else 0) xs
  | ⟨.equals, _, xs⟩ => combine (fun a b => if a = b then 1 else 0) xs
  | ⟨.input, _, xs⟩ => receive (@Vector.get Operand 1 xs 0)
  | ⟨.output, _, xs⟩ => emit (@Vector.get Operand 1 xs 0)
  | ⟨.jumpIfTrue, _, xs⟩ => branch (· != 0) xs
  | ⟨.jumpIfFalse, _, xs⟩ => branch (· == 0) xs
  | ⟨.halt, h, _⟩ => absurd rfl h

def cycle : InPlace (Option (Option Int)) := do
  let r ← get
  match ← ofExcept (r.memory.decode r.ip) with
  | none => return none
  | some ins =>
    modify fun r => { r with nextIp := r.ip + ins.size }
    let emitted ← instruction ins
    modify fun r => { r with ip := r.nextIp }
    return some emitted

end InPlace

/-- One cycle of a running machine in place, started with any value in the second pointer. -/
def State.nextInPlace (s : State) (nextIp : Int) : State × Except Trap (Option Int) :=
  match InPlace.cycle ⟨s, nextIp⟩ with
  | .ok none r => ({ r.toState with status := .halted }, .ok none)
  | .ok (some emitted) r => (r.toState, .ok emitted)
  | .error fault r => ({ r.toState with status := .faulted ⟨fault, r.ip⟩ }, .error ⟨fault, r.ip⟩)

def Registers.act (r : Registers) : Effect → Registers
  | .store a v => { r with memory := r.memory.set a v }
  | .receive a v => { r with memory := r.memory.set a v, pending := r.pending.tail }
  | .emit v => { r with outputs := r.outputs.push v }
  | .jump a => { r with nextIp := a }
  | .pass => r

namespace InPlace

variable {r : Registers}

def outcome (r : Registers) : Except Fault Effect → EStateM.Result Fault Registers (Option Int)
  | .ok e => .ok e.emitted? (r.act e)
  | .error fault => .error fault r

theorem bind_of_ok {α β : Type} {x : InPlace α} {f : α → InPlace β} {a : α} {r' : Registers}
    (h : x r = .ok a r') : (x >>= f) r = f a r' := by
  show EStateM.bind x f r = f a r'
  rw [EStateM.bind, h]

theorem bind_of_error {α β : Type} {x : InPlace α} {f : α → InPlace β} {fault : Fault}
    {r' : Registers} (h : x r = .error fault r') : (x >>= f) r = .error fault r' := by
  show EStateM.bind x f r = .error fault r'
  rw [EStateM.bind, h]

theorem get_bind {α : Type} (f : Registers → InPlace α) : (get >>= f) r = f r r := rfl

theorem load_of_ok {x : Operand} {v : Int} (h : x.load r.memory = .ok v) : load x r = .ok v r := by
  show ofExcept (x.load r.memory) r = .ok v r
  rw [h]
  rfl

theorem load_of_error {x : Operand} {fault : Fault} (h : x.load r.memory = .error fault) :
    load x r = .error fault r := by
  show ofExcept (x.load r.memory) r = .error fault r
  rw [h]
  rfl

theorem store_of_contains {a : Int} (h : r.memory.Contains a) (v : Int) :
    store a v r = .ok () { r with memory := r.memory.set a v } := by
  have hw : r.memory.write a v = .ok (r.memory.set a v) := if_pos h
  show (ofExcept (r.memory.write a v) >>= _) r = _
  rw [hw]
  rfl

theorem store_of_not_contains {a : Int} (h : ¬ r.memory.Contains a) (v : Int) :
    store a v r = .error (.outOfBounds a) r := by
  have hw : r.memory.write a v = .error (.outOfBounds a) := if_neg h
  show (ofExcept (r.memory.write a v) >>= _) r = _
  rw [hw]
  rfl

theorem combine_eq (f : Int → Int → Int) (xs : Vector Operand 3) (r : Registers) :
    combine f xs r = outcome r (Instruction.combine f r.memory xs) := by
  have hget : Instruction.combine f r.memory xs = (do
      let a ← (xs.get 0).load r.memory
      let b ← (xs.get 1).load r.memory
      r.memory.check (xs.get 2).target
      return .store (xs.get 2).target (f a b)) := rfl
  rw [hget]
  unfold combine
  cases h₀ : (xs.get 0).load r.memory with
  | error fault => exact bind_of_error (load_of_error h₀)
  | ok a =>
    rw [bind_of_ok (load_of_ok h₀)]
    cases h₁ : (xs.get 1).load r.memory with
    | error fault => exact bind_of_error (load_of_error h₁)
    | ok b =>
      rw [bind_of_ok (load_of_ok h₁)]
      by_cases hc : r.memory.Contains (xs.get 2).target
      · have hcheck : r.memory.check (xs.get 2).target = .ok () := if_pos hc
        rw [bind_of_ok (store_of_contains hc _), hcheck]
        rfl
      · have hcheck : r.memory.check (xs.get 2).target = .error (.outOfBounds (xs.get 2).target) := if_neg hc
        rw [bind_of_error (store_of_not_contains hc _), hcheck]
        rfl

theorem branch_eq (taken : Int → Bool) (xs : Vector Operand 2) (r : Registers) :
    branch taken xs r = outcome r (Instruction.branch taken r.memory xs) := by
  have hget : Instruction.branch taken r.memory xs = (do
      let v ← (xs.get 0).load r.memory
      let destination ← (xs.get 1).load r.memory
      return if taken v then .jump destination else .pass) := rfl
  rw [hget]
  unfold branch
  cases h₀ : (xs.get 0).load r.memory with
  | error fault => exact bind_of_error (load_of_error h₀)
  | ok v =>
    rw [bind_of_ok (load_of_ok h₀)]
    cases h₁ : (xs.get 1).load r.memory with
    | error fault => exact bind_of_error (load_of_error h₁)
    | ok destination =>
      rw [bind_of_ok (load_of_ok h₁)]
      show _ = outcome r (.ok (if taken v then .jump destination else .pass))
      cases taken v <;> rfl

theorem receive_eq (x : Operand) (r : Registers) :
    receive x r = outcome r (Instruction.receive r.memory x r.pending) := by
  unfold receive
  rw [get_bind]
  cases hp : r.pending with
  | nil => rfl
  | cons v rest =>
    dsimp only
    rw [get_bind]
    unfold Instruction.receive
    by_cases hc : r.memory.Contains x.target
    · have hcheck : r.memory.check x.target = .ok () := if_pos hc
      have hs : store x.target v { r with pending := rest } =
          .ok () { r with memory := r.memory.set x.target v, pending := rest } :=
        store_of_contains (r := { r with pending := rest }) hc v
      rw [hcheck]
      show (store x.target v >>= fun _ => pure none) { r with pending := rest } =
        .ok none { r with memory := r.memory.set x.target v, pending := r.pending.tail }
      rw [bind_of_ok hs, hp]
      rfl
    · have hcheck : r.memory.check x.target = .error (.outOfBounds x.target) := if_neg hc
      rw [hcheck]
      rfl

theorem emit_eq (x : Operand) (r : Registers) :
    emit x r = outcome r (x.load r.memory >>= fun v => .ok (.emit v)) := by
  unfold emit
  cases h : x.load r.memory with
  | error fault => exact bind_of_error (load_of_error h)
  | ok v =>
    rw [bind_of_ok (load_of_ok h)]
    rfl

theorem instruction_eq (ins : Instruction) (r : Registers) :
    instruction ins r = outcome r (ins.effect r.memory r.pending) := by
  obtain ⟨op, hop, xs⟩ := ins
  cases op with
  | add | multiply | lessThan | equals => exact combine_eq _ _ r
  | jumpIfTrue | jumpIfFalse => exact branch_eq _ _ r
  | input => exact receive_eq _ r
  | output => exact emit_eq _ r
  | halt => exact absurd rfl hop

theorem cycle_of_decode_error {fault : Fault} (h : r.memory.decode r.ip = .error fault) :
    cycle r = .error fault r := by
  have hd : (ofExcept (r.memory.decode r.ip)) r = .error fault r := by rw [h]; rfl
  exact (get_bind _).trans (bind_of_error hd)

theorem cycle_of_halt (h : r.memory.decode r.ip = .ok none) : cycle r = .ok none r := by
  have hd : (ofExcept (r.memory.decode r.ip)) r = .ok none r := by rw [h]; rfl
  exact (get_bind _).trans (bind_of_ok hd)

theorem cycle_of_decode {ins : Instruction} (h : r.memory.decode r.ip = .ok (some ins)) :
    cycle r = (instruction ins >>= fun emitted =>
      modify (fun r => { r with ip := r.nextIp }) >>= fun _ => pure (some emitted))
        { r with nextIp := r.ip + ins.size } := by
  have hd : (ofExcept (r.memory.decode r.ip)) r = .ok (some ins) r := by rw [h]; rfl
  exact (get_bind _).trans (bind_of_ok hd)

end InPlace

namespace State

variable {s : State}

theorem apply_eq_act (ins : Instruction) (e : Effect) :
    let r := (Registers.mk s (s.ip + ins.size)).act e
    { r.toState with ip := r.nextIp } = s.apply ins e := by
  cases e <;> rfl

theorem nextInPlace_eq (h : s.status = .running) (nextIp : Int) :
    s.nextInPlace nextIp = (s.next.1, s.next.2.reply) := by
  unfold nextInPlace
  obtain ⟨fault, hd, hn⟩ | ⟨hd, hn⟩ | ⟨ins, fault, hd, he, hn⟩ | ⟨ins, e, hd, he, hn⟩ :=
    next_cases h
  · rw [hn, InPlace.cycle_of_decode_error (r := ⟨s, nextIp⟩) hd]
    rfl
  · rw [hn, InPlace.cycle_of_halt (r := ⟨s, nextIp⟩) hd]
    rfl
  · have hi := InPlace.instruction_eq ins ⟨s, s.ip + ins.size⟩
    rw [he] at hi
    rw [hn, InPlace.cycle_of_decode (r := ⟨s, nextIp⟩) hd, InPlace.bind_of_error hi]
    rfl
  · have hi := InPlace.instruction_eq ins ⟨s, s.ip + ins.size⟩
    rw [he] at hi
    rw [hn, InPlace.cycle_of_decode (r := ⟨s, nextIp⟩) hd, InPlace.bind_of_ok hi]
    rw [← apply_eq_act]
    rfl

end State

namespace Machine

/-- A cycle that raises a trap has stored it and left everything else alone; a cell that asks to
halt changes the status only. Both hold although instructions act in place. -/
theorem next_atomic (m : Machine) (h : m.status = .running) :
    (∀ trap, m.next.2 = .error trap →
      m.next.1.toState = { m.toState with status := .faulted trap } ∧ trap.ip = m.ip) ∧
    (∀ raw, m.memory.read m.ip = .ok raw → 0 ≤ raw → raw % 100 = 99 →
      m.next.1.toState = { m.toState with status := .halted } ∧ m.next.2 = .ok none) ∧
    ∀ nextIp, m.toState.nextInPlace nextIp = (m.next.1.toState, m.next.2) := by
  rw [toState_next, reply_next]
  refine ⟨?_, ?_, State.nextInPlace_eq h⟩
  · intro trap ht
    unfold State.advance
    obtain ⟨fault, -, hn⟩ | ⟨-, hn⟩ | ⟨ins, fault, -, -, hn⟩ | ⟨ins, e, -, -, hn⟩ :=
      State.next_cases h
    all_goals rw [hn] at ht ⊢; cases ht
    · exact ⟨rfl, rfl⟩
    · exact ⟨rfl, rfl⟩
  · intro raw hr hpos hhalt
    have hd := Memory.decode_eq_none_iff.mpr ⟨raw, hr, hpos, hhalt⟩
    unfold State.advance
    rw [State.next_of_halt h hd]
    exact ⟨rfl, rfl⟩

theorem next_atomic_bad_target :
    (start (.ofList [3, 9, 99]) [5] false).next.1.toState =
      { memory := .ofList [3, 9, 99], pending := [5], status := .faulted ⟨.outOfBounds 9, 0⟩ } ∧
    (start (.ofList [1299]) [5] false).next.1.toState =
      { memory := .ofList [1299], pending := [5], status := .halted } :=
  ⟨((next_atomic (start (.ofList [3, 9, 99]) [5] false) rfl).1 ⟨.outOfBounds 9, 0⟩ rfl).1,
    ((next_atomic (start (.ofList [1299]) [5] false) rfl).2.1 1299 rfl (by decide) (by decide)).1⟩

end Machine

end Intcode
