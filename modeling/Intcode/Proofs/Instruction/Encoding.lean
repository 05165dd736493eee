import Intcode.Proofs.Machine.Table
import Mathlib.Algebra.BigOperators.Fin
import Mathlib.Tactic.Ring

/-!
# The encoding of instructions

An instruction cell spells an operation in its two lowest decimal digits and the mode of each
operand in one digit above them; the digits above those are not read. Main statement: decoding
succeeds exactly where a cell spells an operation other than `halt` with room for its operands, and
it gives back the instruction that has been spelled.
-/

namespace Intcode

section Positional

variable {n : ℕ}

/-- The number with these decimal digits, the lowest first, and `rest` above them. -/
def positional (d : Fin n → ℕ) (rest : ℕ) : ℕ := ∑ i, d i * 10 ^ (i : ℕ) + rest * 10 ^ n

theorem positional_succ (d : Fin (n + 1) → ℕ) (rest : ℕ) :
    positional d rest = d 0 + 10 * positional (fun i => d i.succ) rest := by
  have hsum : ∑ i : Fin n, d i.succ * 10 ^ (i.succ : ℕ) =
      10 * ∑ i : Fin n, d i.succ * 10 ^ (i : ℕ) := by
    rw [Finset.mul_sum]
    refine Finset.sum_congr rfl fun i _ => ?_
    rw [Fin.val_succ]
    ring
  simp only [positional]
  rw [Fin.sum_univ_succ, hsum, Fin.val_zero]
  ring

theorem positional_div_ten (d : Fin (n + 1) → ℕ) (hd : ∀ i, d i < 10) (rest : ℕ) :
    positional d rest / 10 = positional (fun i => d i.succ) rest := by
  have hlow := hd 0
  rw [positional_succ]
  omega

theorem digit_positional (d : Fin n → ℕ) (hd : ∀ i, d i < 10) (rest : ℕ) (i : Fin n) :
    positional d rest / 10 ^ (i : ℕ) % 10 = d i := by
  induction n with
  | zero => exact i.elim0
  | succ n ih =>
    refine Fin.cases ?_ (fun j => ?_) i
    · have hlow := hd 0
      rw [positional_succ, Fin.val_zero, pow_zero, Nat.div_one]
      omega
    · rw [Fin.val_succ, pow_succ', ← Nat.div_div_eq_div_mul, positional_div_ten d hd]
      exact ih _ (fun i => hd i.succ) j

theorem rest_positional (d : Fin n → ℕ) (hd : ∀ i, d i < 10) (rest : ℕ) :
    positional d rest / 10 ^ n = rest := by
  induction n with
  | zero => simp [positional]
  | succ n ih =>
    rw [pow_succ', ← Nat.div_div_eq_div_mul, positional_div_ten d hd]
    exact ih _ fun i => hd i.succ

theorem positional_digits (n q : ℕ) :
    positional (fun i : Fin n => q / 10 ^ (i : ℕ) % 10) (q / 10 ^ n) = q := by
  induction n generalizing q with
  | zero => simp [positional]
  | succ n ih =>
    have hshift : ∀ i, q / 10 ^ (i + 1) = q / 10 / 10 ^ i := by
      intro i
      rw [pow_succ', Nat.div_div_eq_div_mul]
    rw [positional_succ]
    simp only [Fin.val_zero, Fin.val_succ, pow_zero, Nat.div_one, hshift]
    rw [ih (q / 10)]
    omega

end Positional

theorem Operation.operandCount_pos {op : Operation} (h : op ≠ .halt) : 0 < op.operandCount := by
  cases op with
  | halt => exact absurd rfl h
  | add | multiply | input | output | jumpIfTrue | jumpIfFalse | lessThan | equals =>
    exact Nat.succ_pos _

theorem Mode.digit_lt (mode : Mode) : mode.digit < 10 := by
  cases mode <;> decide

theorem Mode.digit_injective {a b : Mode} (h : a.digit = b.digit) : a = b := by
  cases a <;> cases b <;> first | rfl | cases h

theorem modeDigit_natCast (q i : ℕ) : modeDigit q i = (q / 100 / 10 ^ i % 10 : ℕ) := by
  have hpow : Nat.pow modeBase i = 10 ^ i := rfl
  rw [modeDigit, hpow]
  push_cast
  rfl

/-- What an instruction cell says about its instruction. -/
@[ext]
structure Form where
  operation : Operation
  ne_halt : operation ≠ .halt
  modes : Vector Mode operation.operandCount

namespace Form

variable {f g : Form} {k l : ℕ}

def arity (f : Form) : ℕ := f.operation.operandCount

def mode (f : Form) (i : Fin f.arity) : Mode := f.modes.get i

def raw (f : Form) (surplus : ℕ) : ℕ :=
  f.operation.code + ∑ i, (f.mode i).digit * 10 ^ (i + 2 : ℕ) + surplus * 10 ^ (f.arity + 2)

theorem raw_eq (f : Form) (surplus : ℕ) :
    f.raw surplus = f.operation.code + 100 * positional (fun i => (f.mode i).digit) surplus := by
  have hsum : ∑ i, (f.mode i).digit * 10 ^ (i + 2 : ℕ) =
      100 * ∑ i, (f.mode i).digit * 10 ^ (i : ℕ) := by
    rw [Finset.mul_sum]
    refine Finset.sum_congr rfl fun i _ => ?_
    ring
  rw [raw, positional, hsum]
  ring

theorem raw_mod (f : Form) (surplus : ℕ) : f.raw surplus % 100 = f.operation.code := by
  have := f.operation.code_lt
  rw [raw_eq]
  omega

theorem raw_div (f : Form) (surplus : ℕ) :
    f.raw surplus / 100 = positional (fun i => (f.mode i).digit) surplus := by
  have := f.operation.code_lt
  rw [raw_eq]
  omega

theorem modeDigit_raw (f : Form) (surplus : ℕ) (i : Fin f.arity) :
    modeDigit (f.raw surplus) i = (f.mode i).digit := by
  rw [modeDigit_natCast, raw_div, digit_positional _ fun i => (f.mode i).digit_lt]

theorem raw_inj (h : f.raw k = g.raw l) : f = g ∧ k = l := by
  have hop : f.operation = g.operation :=
    Operation.code_injective (by rw [← f.raw_mod k, ← g.raw_mod l, h])
  obtain ⟨op, hhalt, xs⟩ := f
  obtain ⟨op', hhalt', ys⟩ := g
  obtain rfl : op = op' := hop
  constructor
  · have hmodes : xs = ys := by
      refine Vector.ext fun i hi => Mode.digit_injective ?_
      have hx := modeDigit_raw ⟨op, hhalt, xs⟩ k ⟨i, hi⟩
      have hy := modeDigit_raw ⟨op, hhalt', ys⟩ l ⟨i, hi⟩
      rw [h, hy] at hx
      exact (Int.ofNat.inj hx).symm
    rw [hmodes]
  · have hk := rest_positional _ (fun i => (mode ⟨op, hhalt, xs⟩ i).digit_lt) k
    have hl := rest_positional _ (fun i => (mode ⟨op, hhalt', ys⟩ i).digit_lt) l
    rw [← raw_div, h] at hk
    rw [← raw_div] at hl
    exact hk.symm.trans hl

theorem exists_raw_iff {raw : ℤ} : (∃ k : ℕ, raw = f.raw k) ↔
    (0 ≤ raw ∧ raw % 100 = f.operation.code) ∧
      ∀ i : Fin f.arity, modeDigit raw i = (f.mode i).digit := by
  constructor
  · rintro ⟨k, rfl⟩
    have hmod := f.raw_mod k
    exact ⟨⟨by omega, by omega⟩, f.modeDigit_raw k⟩
  · rintro ⟨⟨hpos, hcode⟩, hdigits⟩
    obtain ⟨q, rfl⟩ := Int.eq_ofNat_of_zero_le hpos
    refine ⟨q / 100 / 10 ^ f.arity, congrArg Nat.cast ?_⟩
    have hmodes : ∀ i : Fin f.arity, q / 100 / 10 ^ (i : ℕ) % 10 = (f.mode i).digit := by
      intro i
      have hi := hdigits i
      rw [modeDigit_natCast] at hi
      exact Int.ofNat.inj hi
    have hq := positional_digits f.arity (q / 100)
    simp only [hmodes] at hq
    rw [raw_eq, hq]
    omega

end Form

def Form.instruction (f : Form) (ip : ℤ) (values : Fin f.arity → ℤ) : Instruction where
  operation := f.operation
  ne_halt := f.ne_halt
  operands := Vector.ofFn fun i => ⟨values i, f.mode i, ip + 1 + i⟩

namespace Instruction

def form (ins : Instruction) : Form where
  operation := ins.operation
  ne_halt := ins.ne_halt
  modes := ins.operands.map Operand.mode

def LiesAt (ins : Instruction) (ip : ℤ) : Prop :=
  ∀ (i : ℕ) (hi : i < ins.operation.operandCount), ins.operands[i].position = ip + 1 + i

def cells (ins : Instruction) (surplus : ℕ) : List ℤ :=
  ins.form.raw surplus :: ins.operands.toList.map Operand.value

theorem mode_form (ins : Instruction) (i : Fin ins.form.arity) :
    ins.form.mode i = (ins.operands.get i).mode :=
  Vector.getElem_map _ i.isLt

end Instruction

section Instruction

variable (f : Form) (ip : ℤ) (values : Fin f.arity → ℤ)

theorem Form.get_instruction (i : Fin f.arity) :
    (f.instruction ip values).operands.get i = ⟨values i, f.mode i, ip + 1 + i⟩ :=
  Vector.getElem_ofFn i.isLt

theorem Form.form_instruction : (f.instruction ip values).form = f := by
  refine Form.ext rfl (heq_of_eq (Vector.ext fun i hi => ?_))
  have hmode := congrArg Operand.mode (f.get_instruction ip values ⟨i, hi⟩)
  exact (Vector.getElem_map Operand.mode hi).trans hmode

end Instruction

namespace Memory

variable {m m' : Memory} {ip raw a : ℤ} {ins : Instruction} {i n k : ℕ}

theorem read_eq_ok_iff {v : ℤ} : m.read a = .ok v ↔ 0 ≤ a ∧ m.toList[a.toNat]? = some v := by
  constructor
  · intro h
    exact ⟨(contains_of_read h).1, getElem?_of_read h⟩
  · rintro ⟨hpos, hv⟩
    obtain ⟨hlt, hv⟩ := List.getElem?_eq_some_iff.mp hv
    have hc : m.Contains a := by
      have hsize : m.toList.length = m.size := rfl
      exact ⟨hpos, by omega⟩
    rw [read, dif_pos hc]
    exact congrArg Except.ok hv

theorem exists_read (h : m.Contains a) : ∃ v, m.read a = .ok v :=
  ⟨_, dif_pos h⟩

theorem decode_eq_some_iff : m.decode ip = .ok (some ins) ↔ ins.LiesAt ip ∧
    (∃ k : ℕ, m.read ip = .ok ↑(ins.form.raw k)) ∧
      ∀ (i : ℕ) (hi : i < ins.operation.operandCount),
        m.read (ip + 1 + i) = .ok ins.operands[i].value := by
  constructor
  · intro h
    obtain ⟨raw, hraw, h⟩ := bind_eq_ok_iff.mp h
    obtain ⟨op, hop, h⟩ := bind_eq_ok_iff.mp h
    by_cases hhalt : op = .halt
    · rw [dif_pos hhalt] at h
      cases h
    · rw [dif_neg hhalt] at h
      obtain ⟨xs, hxs, h⟩ := bind_eq_ok_iff.mp h
      cases h
      have hoperands := fun i hi => operand_eq_ok_iff.mp (operands_eq_ok_iff.mp hxs i hi)
      refine ⟨fun i hi => (hoperands i hi).2.2, ?_, fun i hi => (hoperands i hi).2.1⟩
      obtain ⟨k, hk⟩ := Form.exists_raw_iff (f := Instruction.form ⟨op, hhalt, xs⟩).mpr
        ⟨decodeOperation_eq_ok_iff.mp hop, fun i => by
          rw [Instruction.mode_form]
          exact (hoperands i i.isLt).1⟩
      exact ⟨k, hk ▸ hraw⟩
  · rintro ⟨hlies, ⟨k, hk⟩, hvalues⟩
    obtain ⟨hop, hmodes⟩ := Form.exists_raw_iff.mp ⟨k, rfl⟩
    refine bind_eq_ok_iff.mpr ⟨_, hk, bind_eq_ok_iff.mpr
      ⟨ins.operation, decodeOperation_eq_ok_iff.mpr hop, ?_⟩⟩
    rw [dif_neg ins.ne_halt]
    refine bind_eq_ok_iff.mpr ⟨ins.operands, operands_eq_ok_iff.mpr fun i hi => ?_, rfl⟩
    have hmode := hmodes ⟨i, hi⟩
    rw [Instruction.mode_form] at hmode
    exact operand_eq_ok_iff.mpr ⟨hmode, hvalues i hi, hlies i hi⟩

theorem exists_decode_of_raw {f : Form} (hraw : m.read ip = .ok ↑(f.raw k))
    (hroom : ip + f.arity < m.size) : ∃ ins, m.decode ip = .ok (some ins) := by
  have hpos := (contains_of_read hraw).1
  have hcells : ∀ i : Fin f.arity, ∃ v, m.read (ip + 1 + i) = .ok v := by
    intro i
    have := i.isLt
    exact exists_read ⟨by omega, by omega⟩
  choose values hvalues using hcells
  have hoperand := f.get_instruction ip values
  refine ⟨f.instruction ip values, decode_eq_some_iff.mpr ⟨fun i hi => ?_, ⟨k, ?_⟩, fun i hi => ?_⟩⟩
  · exact congrArg Operand.position (hoperand ⟨i, hi⟩)
  · rw [f.form_instruction]
    exact hraw
  · have hvalue := congrArg Operand.value (hoperand ⟨i, hi⟩)
    exact (hvalues ⟨i, hi⟩).trans (congrArg Except.ok hvalue.symm)

def writeAll (m : Memory) (a : ℤ) : List ℤ → Except Fault Memory
  | [] => .ok m
  | v :: vs => do
    let m ← m.write a v
    m.writeAll (a + 1) vs

theorem exists_writeAll (vs : List ℤ) (hpos : 0 ≤ a) (hroom : a + vs.length ≤ m.size) :
    ∃ m', m.writeAll a vs = .ok m' ∧ (∀ b, b < a → m'.read b = m.read b) ∧
      ∀ (i : ℕ) (hi : i < vs.length), m'.read (a + i) = .ok vs[i] := by
  induction vs generalizing m a with
  | nil => exact ⟨m, rfl, fun _ _ => rfl, fun i hi => absurd hi i.not_lt_zero⟩
  | cons v vs ih =>
    rw [List.length_cons] at hroom
    push_cast at hroom
    have hc : m.Contains a := ⟨hpos, by omega⟩
    have hrest : a + 1 + vs.length ≤ (m.set a v).size := by
      rw [size_set]
      omega
    obtain ⟨m', hwrite, hbefore, hcells⟩ := ih (m := m.set a v) (by omega) hrest
    refine ⟨m', bind_eq_ok_iff.mpr ⟨m.set a v, write_eq_ok_iff.mpr ⟨hc, rfl⟩, hwrite⟩, ?_, ?_⟩
    · intro b hb
      rw [hbefore b (by omega), read_set_of_ne (by omega)]
    · intro i hi
      cases i with
      | zero =>
        rw [Nat.cast_zero, add_zero, hbefore a (by omega), read_set hc]
        rfl
      | succ i =>
        have hcell := hcells i (by simpa using hi)
        rw [Nat.cast_succ, add_comm (i : ℤ) 1, ← add_assoc]
        exact hcell

/-- Decoding succeeds exactly on a cell that spells an operation other than `halt`, the modes of
its operands and any surplus, with room for the operands behind it. Operation, modes and surplus are
unique. The instruction has this operation and these modes, it takes the values of the operands from
the cells behind the first one, and it depends on nothing else. So any instruction that is written
to a memory, at any place with room for it, is decoded there. -/
theorem decode_inverts_spelling (m : Memory) (ip : ℤ) :
    ((∃ ins, m.decode ip = .ok (some ins)) ↔
      0 ≤ ip ∧ ∃ (f : Form) (k : ℕ), m.toList[ip.toNat]? = some ↑(f.raw k) ∧
        ip + f.arity < m.size) ∧
    (∀ (f g : Form) (k l : ℕ), f.raw k = g.raw l → f = g ∧ k = l) ∧
    (∀ ins (f : Form) (k : ℕ), m.decode ip = .ok (some ins) →
      m.toList[ip.toNat]? = some ↑(f.raw k) →
      ins.form = f ∧ ∀ (i : ℕ) (hi : i < ins.operation.operandCount),
        m.toList[(ip + 1 + i).toNat]? = some ins.operands[i].value ∧
          ins.operands[i].position = ip + 1 + i) ∧
    (∀ ins (m' : Memory) (k : ℕ), m.decode ip = .ok (some ins) →
      m'.read ip = .ok ↑(ins.form.raw k) →
      (∀ i : ℕ, i < ins.operation.operandCount → m'.read (ip + 1 + i) = m.read (ip + 1 + i)) →
      m'.decode ip = .ok (some ins)) ∧
    ∀ (ins : Instruction) (k : ℕ), ins.LiesAt ip → 0 ≤ ip →
      ip + ins.operation.operandCount < m.size →
      ∃ m', m.writeAll ip (ins.cells k) = .ok m' ∧ m'.decode ip = .ok (some ins) := by
  refine ⟨⟨?_, ?_⟩, fun f g k l => Form.raw_inj, ?_, ?_, ?_⟩
  · rintro ⟨ins, h⟩
    obtain ⟨-, ⟨k, hk⟩, hvalues⟩ := decode_eq_some_iff.mp h
    obtain ⟨hpos, hcell⟩ := read_eq_ok_iff.mp hk
    refine ⟨hpos, ins.form, k, hcell, ?_⟩
    have hcount := Operation.operandCount_pos ins.ne_halt
    have hlast := (contains_of_read (hvalues (ins.operation.operandCount - 1) (by omega))).2
    have harity : ins.form.arity = ins.operation.operandCount := rfl
    omega
  · rintro ⟨hpos, f, k, hcell, hroom⟩
    exact exists_decode_of_raw (read_eq_ok_iff.mpr ⟨hpos, hcell⟩) hroom
  · intro ins f k h hcell
    obtain ⟨hlies, ⟨l, hl⟩, hvalues⟩ := decode_eq_some_iff.mp h
    have hraw := (read_eq_ok_iff.mp hl).2.symm.trans hcell
    refine ⟨(Form.raw_inj (Int.ofNat.inj (Option.some.inj hraw))).1, fun i hi => ?_⟩
    exact ⟨(read_eq_ok_iff.mp (hvalues i hi)).2, hlies i hi⟩
  · intro ins m' k h hraw hcells
    obtain ⟨hlies, -, hvalues⟩ := decode_eq_some_iff.mp h
    refine decode_eq_some_iff.mpr ⟨hlies, ⟨k, hraw⟩, fun i hi => ?_⟩
    rw [hcells i hi]
    exact hvalues i hi
  · intro ins k hlies hpos hroom
    have hlength : (ins.cells k).length = ins.operation.operandCount + 1 := by
      simp [Instruction.cells]
    obtain ⟨m', hwrite, -, hcells⟩ := exists_writeAll (m := m) (ins.cells k) hpos (by omega)
    refine ⟨m', hwrite, decode_eq_some_iff.mpr ⟨hlies, ⟨k, ?_⟩, fun i hi => ?_⟩⟩
    · have hfirst := hcells 0 (by omega)
      rwa [Nat.cast_zero, add_zero] at hfirst
    · have hcell := hcells (i + 1) (by omega)
      rw [Nat.cast_succ, add_comm (i : ℤ) 1, ← add_assoc] at hcell
      rw [hcell]
      simp [Instruction.cells]

theorem decode_inverts_spelling_product :
    let ins : Instruction := { operation := .multiply, operands :=
      #v[⟨4, .position, 2⟩, ⟨-3, .immediate, 3⟩, ⟨4, .position, 4⟩] }
    ins.cells 99 = [9901002, 4, -3, 4] ∧
      (∃ found, (ofList [0, 9901002, 4, -3, 4]).decode 1 = .ok (some found)) ∧
      (ofList [0, 9901002, 4, -3, 4]).decode 1 = .ok (some ins) ∧
      (ofList [5, 1002, 4, -3, 4, 99]).decode 1 = .ok (some ins) ∧
      ∃ m', (ofList [1, 2, 3, 5, 7, 9]).writeAll 1 [9901002, 4, -3, 4] = .ok m' ∧
        m'.decode 1 = .ok (some ins) := by
  intro ins
  have hcells : ins.cells 99 = [9901002, 4, -3, 4] := by decide +kernel
  have hlies : ins.LiesAt 1 := by
    unfold Instruction.LiesAt
    decide
  have hdecoded : (ofList [0, 9901002, 4, -3, 4]).decode 1 = .ok (some ins) := by decide
  have hsame : ∀ i : ℕ, i < 3 → (ofList [5, 1002, 4, -3, 4, 99]).read (1 + 1 + i) =
      (ofList [0, 9901002, 4, -3, 4]).read (1 + 1 + i) := by
    decide
  obtain ⟨hexists, -, -, hother, -⟩ := decode_inverts_spelling (ofList [0, 9901002, 4, -3, 4]) 1
  obtain ⟨-, -, -, -, hwritten⟩ := decode_inverts_spelling (ofList [1, 2, 3, 5, 7, 9]) 1
  refine ⟨hcells, ?_, hdecoded, ?_, ?_⟩
  · exact hexists.mpr ⟨by decide, ins.form, 99, by decide +kernel, by decide⟩
  · exact hother ins _ 0 hdecoded (by decide +kernel) hsame
  · rw [← hcells]
    exact hwritten ins 99 hlies (by decide) (by decide)

end Memory

end Intcode
