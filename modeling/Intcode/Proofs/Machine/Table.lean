import Intcode.Proofs.Machine.Run

/-!
# The instruction table

What each operation does, as a relation between the state before a cycle and the state after it.
Main statement: the cycles of a running machine that neither fault nor halt are those that follow
the row of the table for the instruction at the pointer.
-/

namespace Intcode

namespace Operation

def function? : Operation → Option (Int → Int → Int)
  | add => some fun a b => a + b
  | multiply => some fun a b => a * b
  | lessThan => some fun a b => if a < b then 1 else 0
  | equals => some fun a b => if a = b then 1 else 0
  | input | output | jumpIfTrue | jumpIfFalse | halt => none

def condition? : Operation → Option (Int → Prop)
  | jumpIfTrue => some fun v => v ≠ 0
  | jumpIfFalse => some fun v => v = 0
  | add | multiply | input | output | lessThan | equals | halt => none

end Operation

namespace Memory

variable {m m' : Memory} {a b v w raw ip : Int} {n : Nat}

structure Replaced (m : Memory) (address value : Int) (m' : Memory) : Prop where
  size : m'.size = m.size
  cell : m'.read address = .ok value
  others : ∀ a, a ≠ address → m'.read a = m.read a

theorem read_set_of_ne (h : b ≠ a) : (m.set a v).read b = m.read b := by
  unfold read
  by_cases hb : m.Contains b
  · rw [dif_pos hb, dif_pos (contains_set.mpr hb)]
    by_cases ha : 0 ≤ a
    · have hne : a.toNat ≠ b.toNat := by
        have := hb.1
        omega
      simp only [set, ha, if_true, Except.ok.injEq]
      exact Array.getElem_setIfInBounds_ne hb.toNat_lt hne
    · simp [set, ha]
  · rw [dif_neg hb, dif_neg (mt contains_set.mp hb)]

theorem eq_of_read (hsize : m.size = m'.size) (h : ∀ a, m.read a = m'.read a) : m = m' := by
  have hcells : m.cells = m'.cells := by
    refine Array.ext hsize fun i hi hi' => ?_
    have hc : m.Contains i := ⟨Int.natCast_nonneg i, Int.ofNat_lt.mpr hi⟩
    have hc' : m'.Contains i := ⟨Int.natCast_nonneg i, Int.ofNat_lt.mpr hi'⟩
    have hread := h i
    unfold read at hread
    rw [dif_pos hc, dif_pos hc'] at hread
    simpa using hread
  cases m
  cases m'
  exact congrArg Memory.mk hcells

theorem replaced_iff : m.Replaced a v m' ↔ m.Contains a ∧ m' = m.set a v := by
  constructor
  · intro h
    have hc : m.Contains a := by
      have hc' := contains_of_read h.cell
      exact ⟨hc'.1, h.size ▸ hc'.2⟩
    refine ⟨hc, eq_of_read (h.size.trans (size_set m a v).symm) fun b => ?_⟩
    by_cases hb : b = a
    · rw [hb, h.cell, read_set hc]
    · rw [h.others b hb, read_set_of_ne hb]
  · rintro ⟨hc, rfl⟩
    exact ⟨size_set m a v, read_set hc v, fun b hb => read_set_of_ne hb⟩

theorem operands_position {xs : Vector Operand n} (h : m.operands raw ip n = .ok xs) (i : Nat)
    (hi : i < n) : xs[i].position = ip + 1 + i :=
  (operand_eq_ok_iff.mp (operands_eq_ok_iff.mp h i hi)).2.2

theorem decode_position {ins : Instruction} (h : m.decode ip = .ok (some ins)) (i : Nat)
    (hi : i < ins.operation.operandCount) : ins.operands[i].position = ip + 1 + i := by
  obtain ⟨raw, -, h⟩ := bind_eq_ok_iff.mp h
  obtain ⟨op, -, h⟩ := bind_eq_ok_iff.mp h
  by_cases hop : op = .halt
  · rw [dif_pos hop] at h
    cases h
  · rw [dif_neg hop] at h
    obtain ⟨xs, hxs, h⟩ := bind_eq_ok_iff.mp h
    cases h
    exact operands_position hxs i hi

end Memory

namespace Operand

variable {x : Operand} {m : Memory} {v own address : Int}

/-- The value an operand stands for: the contents of the cell at it, or the operand itself. -/
structure Means (x : Operand) (m : Memory) (v : Int) : Prop where
  position : x.mode = .position → m.read x.value = .ok v
  immediate : x.mode = .immediate → v = x.value

/-- The address an operand gives to a result when it stands in the cell `own` itself. -/
structure Names (x : Operand) (own address : Int) : Prop where
  position : x.mode = .position → address = x.value
  immediate : x.mode = .immediate → address = own

theorem means_iff : x.Means m v ↔ x.load m = .ok v := by
  unfold load
  cases hx : x.mode with
  | position => exact ⟨fun h => h.position hx, fun h => ⟨fun _ => h, by simp [hx]⟩⟩
  | immediate =>
    refine ⟨fun h => by rw [h.immediate hx], fun h => ⟨by simp [hx], fun _ => ?_⟩⟩
    cases h
    rfl

theorem names_iff (h : x.position = own) : x.Names own address ↔ address = x.target := by
  subst h
  unfold target
  cases hx : x.mode with
  | position => exact ⟨fun h => h.position hx, fun h => ⟨fun _ => h, by simp [hx]⟩⟩
  | immediate => exact ⟨fun h => h.immediate hx, fun h => ⟨by simp [hx], fun _ => h⟩⟩

end Operand

/-- The table: an operation with its operands, the state it leads to and the value it emits. All
operands are taken as they are before the cycle. -/
inductive Row (s : State) : Operation → List Operand → State → Option Int → Prop
  | compute {op : Operation} {f : Int → Int → Int} {x y z : Operand} {a b address : Int}
      {memory : Memory} (hf : op.function? = some f) (hx : x.Means s.memory a)
      (hy : y.Means s.memory b) (hz : z.Names (s.ip + 3) address)
      (hm : s.memory.Replaced address (f a b) memory) :
      Row s op [x, y, z] { s with memory, ip := s.ip + 4 } none
  | receive {x : Operand} {v address : Int} {rest : List Int} {memory : Memory}
      (hp : s.pending = v :: rest) (hx : x.Names (s.ip + 1) address)
      (hm : s.memory.Replaced address v memory) :
      Row s .input [x] { s with memory, pending := rest, ip := s.ip + 2 } none
  | emit {x : Operand} {v : Int} (hx : x.Means s.memory v) :
      Row s .output [x] { s with outputs := s.outputs.push v, ip := s.ip + 2 } (some v)
  | jump {op : Operation} {taken : Int → Prop} {x y : Operand} {v a : Int}
      (hop : op.condition? = some taken) (hx : x.Means s.memory v) (hy : y.Means s.memory a)
      (hv : taken v) : Row s op [x, y] { s with ip := a } none
  | pass {op : Operation} {taken : Int → Prop} {x y : Operand} {v a : Int}
      (hop : op.condition? = some taken) (hx : x.Means s.memory v) (hy : y.Means s.memory a)
      (hv : ¬ taken v) : Row s op [x, y] { s with ip := s.ip + 3 } none

namespace Row

variable {s after : State} {reply : Option Int} {op : Operation} {ins : Instruction}
  {x y z : Operand}

def Leads (s : State) (ins : Instruction) (after : State) (reply : Option Int)
    (effect : Except Fault Effect) : Prop :=
  ∃ e, effect = .ok e ∧ after = s.apply ins e ∧ reply = e.emitted?

theorem leads_combine_iff {f : Int → Int → Int} (hf : op.function? = some f)
    (hsize : (ins.size : Int) = 4) (hz : z.position = s.ip + 3) :
    Leads s ins after reply (Instruction.combine f s.memory #v[x, y, z]) ↔
      Row s op [x, y, z] after reply := by
  constructor
  · rintro ⟨e, he, rfl, rfl⟩
    obtain ⟨a, b, ha, hb, hc, rfl⟩ := Instruction.combine_eq_ok_iff.mp he
    have hrow := Row.compute hf (Operand.means_iff.mpr ha) (Operand.means_iff.mpr hb)
      ((Operand.names_iff hz).mpr rfl) (Memory.replaced_iff.mpr ⟨hc, rfl⟩)
    simpa only [State.apply, Effect.emitted?, hsize] using hrow
  · intro h
    cases h with
    | compute hf' hx hy hz' hm =>
      have hf := Option.some.inj (hf.symm.trans hf')
      have haddress := (Operand.names_iff hz).mp hz'
      obtain ⟨hc, rfl⟩ := Memory.replaced_iff.mp hm
      subst hf haddress
      refine ⟨_, Instruction.combine_eq_ok_iff.mpr ⟨_, _, Operand.means_iff.mp hx,
        Operand.means_iff.mp hy, hc, rfl⟩, ?_, rfl⟩
      simp only [State.apply, hsize]

theorem leads_receive_iff (hsize : (ins.size : Int) = 2) (hx : x.position = s.ip + 1) :
    Leads s ins after reply (Instruction.receive s.memory x s.pending) ↔
      Row s .input [x] after reply := by
  constructor
  · rintro ⟨e, he, rfl, rfl⟩
    obtain ⟨v, rest, hp, hc, rfl⟩ := Instruction.receive_eq_ok_iff.mp he
    have hrow := Row.receive hp ((Operand.names_iff hx).mpr rfl) (Memory.replaced_iff.mpr ⟨hc, rfl⟩)
    simpa only [State.apply, Effect.emitted?, hsize, hp, List.tail_cons] using hrow
  · intro h
    cases h with
    | receive hp hx' hm =>
      have haddress := (Operand.names_iff hx).mp hx'
      obtain ⟨hc, rfl⟩ := Memory.replaced_iff.mp hm
      subst haddress
      refine ⟨_, Instruction.receive_eq_ok_iff.mpr ⟨_, _, hp, hc, rfl⟩, ?_, rfl⟩
      simp only [State.apply, hsize, hp, List.tail_cons]

theorem leads_emit_iff (hsize : (ins.size : Int) = 2) :
    Leads s ins after reply (x.load s.memory >>= fun v => .ok (.emit v)) ↔
      Row s .output [x] after reply := by
  constructor
  · rintro ⟨e, he, rfl, rfl⟩
    obtain ⟨v, hv, he⟩ := bind_eq_ok_iff.mp he
    cases he
    have hrow := Row.emit (Operand.means_iff.mpr hv)
    simpa only [State.apply, Effect.emitted?, hsize] using hrow
  · intro h
    cases h with
    | emit hx =>
      refine ⟨_, bind_eq_ok_iff.mpr ⟨_, Operand.means_iff.mp hx, rfl⟩, ?_, rfl⟩
      simp only [State.apply, hsize]

theorem leads_branch_iff {test : Int → Bool} {taken : Int → Prop}
    (hop : op.condition? = some taken) (htest : ∀ v, test v = true ↔ taken v)
    (hsize : (ins.size : Int) = 3) :
    Leads s ins after reply (Instruction.branch test s.memory #v[x, y]) ↔
      Row s op [x, y] after reply := by
  constructor
  · rintro ⟨e, he, rfl, rfl⟩
    obtain ⟨v, a, hv, ha, rfl⟩ := Instruction.branch_eq_ok_iff.mp he
    by_cases h : test v = true
    · rw [if_pos h]
      exact .jump hop (Operand.means_iff.mpr hv) (Operand.means_iff.mpr ha) ((htest v).mp h)
    · rw [if_neg h]
      have hrow := Row.pass hop (Operand.means_iff.mpr hv) (Operand.means_iff.mpr ha)
        (mt (htest v).mpr h)
      simpa only [State.apply, Effect.emitted?, hsize] using hrow
  · intro h
    cases h with
    | jump hop' hx hy hv =>
      rw [← Option.some.inj (hop.symm.trans hop'), ← htest] at hv
      refine ⟨_, Instruction.branch_eq_ok_iff.mpr ⟨_, _, Operand.means_iff.mp hx,
        Operand.means_iff.mp hy, rfl⟩, ?_, ?_⟩
      · rw [if_pos hv]
        rfl
      · rw [if_pos hv]
        rfl
    | pass hop' hx hy hv =>
      rw [← Option.some.inj (hop.symm.trans hop'), ← htest] at hv
      refine ⟨_, Instruction.branch_eq_ok_iff.mpr ⟨_, _, Operand.means_iff.mp hx,
        Operand.means_iff.mp hy, rfl⟩, ?_, ?_⟩
      · rw [if_neg hv]
        simp only [State.apply, hsize]
      · rw [if_neg hv]
        rfl

theorem leads_effect_iff (hd : s.memory.decode s.ip = .ok (some ins)) :
    Leads s ins after reply (ins.effect s.memory s.pending) ↔
      Row s ins.operation ins.operands.toList after reply := by
  have hpos := Memory.decode_position hd
  obtain ⟨op, hop, xs⟩ := ins
  cases op with
  | add | multiply | lessThan | equals =>
    obtain ⟨x, y, z, rfl⟩ := Instruction.exists_triple xs
    exact leads_combine_iff rfl rfl ((hpos 2 (show 2 < 3 by decide)).trans (Int.add_assoc _ _ _))
  | input =>
    obtain ⟨x, rfl⟩ := Instruction.exists_singleton xs
    exact leads_receive_iff rfl ((hpos 0 (show 0 < 1 by decide)).trans (Int.add_zero _))
  | output =>
    obtain ⟨x, rfl⟩ := Instruction.exists_singleton xs
    exact leads_emit_iff rfl
  | jumpIfTrue =>
    obtain ⟨x, y, rfl⟩ := Instruction.exists_pair xs
    exact leads_branch_iff rfl (fun v => bne_iff_ne) rfl
  | jumpIfFalse =>
    obtain ⟨x, y, rfl⟩ := Instruction.exists_pair xs
    exact leads_branch_iff rfl (fun v => beq_iff_eq) rfl
  | halt => exact absurd rfl hop

end Row

namespace Machine

/-- A cycle of a running machine goes through without a fault and without halting exactly when the
table has a row for the instruction at the pointer, and then it does what the row says. The machine
keeps running, and what the row does not mention stays as it was. -/
theorem next_table (m : Machine) (h : m.status = .running) (after : State)
    (reply : Option Int) :
    (m.next.1.toState = after ∧ m.next.2 = .ok reply ∧ after.status ≠ .halted) ↔
      after.status = .running ∧ ∃ ins, m.memory.decode m.ip = .ok (some ins) ∧
        Row m.toState ins.operation ins.operands.toList after reply := by
  rw [toState_next, reply_next, State.advance]
  constructor
  · rintro ⟨rfl, hreply, hstatus⟩
    obtain ⟨fault, -, hn⟩ | ⟨-, hn⟩ | ⟨ins, fault, -, -, hn⟩ | ⟨ins, e, hd, he, hn⟩ :=
      State.next_cases h
    all_goals rw [hn] at hreply hstatus ⊢
    · cases hreply
    · exact absurd rfl hstatus
    · cases hreply
    · cases hreply
      exact ⟨(State.status_apply ins e).trans h, ins, hd,
        (Row.leads_effect_iff hd).mp ⟨e, he, rfl, rfl⟩⟩
  · rintro ⟨hstatus, ins, hd, hrow⟩
    obtain ⟨e, he, rfl, rfl⟩ := (Row.leads_effect_iff hd).mpr hrow
    rw [State.next_of_effect h hd he]
    refine ⟨rfl, rfl, ?_⟩
    rw [hstatus]
    decide

theorem next_table_own_cell :
    (∃ ins, (Memory.ofList [1101, 5, 6, 0, 99]).decode 0 = .ok (some ins) ∧
      Row { memory := .ofList [1101, 5, 6, 0, 99] } ins.operation ins.operands.toList
        { memory := .ofList [11, 5, 6, 0, 99], ip := 4 } none) ∧
      ∃ ins, (Memory.ofList [103, 7, 99]).decode 0 = .ok (some ins) ∧
        Row { memory := .ofList [103, 7, 99], pending := [5] } ins.operation ins.operands.toList
          { memory := .ofList [103, 5, 99], ip := 2 } none := by
  constructor
  · exact ((next_table (start (.ofList [1101, 5, 6, 0, 99]) [] false) rfl _ none).mp
      ⟨rfl, rfl, by decide⟩).2
  · exact ((next_table (start (.ofList [103, 7, 99]) [5] false) rfl _ none).mp
      ⟨rfl, rfl, by decide⟩).2

end Machine

end Intcode
