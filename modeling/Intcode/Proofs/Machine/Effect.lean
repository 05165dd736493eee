import Intcode.Machine.Effect

/-!
# What an instruction can do, and why it cannot

The effect of an instruction, sorted by what it does, with the checks that have passed before it;
and the faults met by decoding and by the checks, each with the fact about the memory or the queue
that brings it about.
-/

namespace Intcode

theorem bind_eq_ok_iff {ε α β : Type} {x : Except ε α} {f : α → Except ε β} {b : β} :
    x >>= f = .ok b ↔ ∃ a, x = .ok a ∧ f a = .ok b := by
  cases x with
  | error e =>
    constructor
    · intro h
      cases h
    · rintro ⟨_, h, _⟩
      cases h
  | ok a =>
    constructor
    · intro h
      exact ⟨a, rfl, h⟩
    · rintro ⟨_, h, hf⟩
      cases h
      exact hf

theorem bind_eq_error_iff {ε α β : Type} {x : Except ε α} {f : α → Except ε β} {e : ε} :
    x >>= f = .error e ↔ x = .error e ∨ ∃ a, x = .ok a ∧ f a = .error e := by
  cases x with
  | error e' =>
    constructor
    · intro h
      cases h
      exact Or.inl rfl
    · rintro (h | ⟨_, h, _⟩)
      · cases h
        rfl
      · cases h
  | ok a =>
    constructor
    · intro h
      exact Or.inr ⟨a, rfl, h⟩
    · rintro (h | ⟨_, h, hf⟩)
      · cases h
      · cases h
        exact hf

theorem decodeOperation_eq_ok_iff {raw : Int} {op : Operation} :
    decodeOperation raw = .ok op ↔ 0 ≤ raw ∧ raw % 100 = op.code := by
  have hmod : ∀ n : Nat, n = (raw % opcodeBase).toNat ↔ raw % 100 = n := by
    intro n
    unfold opcodeBase
    omega
  unfold decodeOperation
  by_cases hneg : raw < 0
  · rw [if_pos hneg]
    constructor
    · intro h
      cases h
    · intro h
      omega
  · rw [if_neg hneg]
    have hcode := @Operation.ofCode?_eq_some_iff (raw % opcodeBase).toNat op
    rw [hmod] at hcode
    cases ho : Operation.ofCode? (raw % opcodeBase).toNat with
    | none =>
      rw [ho] at hcode
      constructor
      · intro h
        cases h
      · intro h
        cases hcode.mpr h.2
    | some found =>
      rw [ho, Option.some.injEq] at hcode
      rw [← hcode]
      constructor
      · intro h
        cases h
        exact ⟨by omega, rfl⟩
      · rintro ⟨-, rfl⟩
        rfl

theorem decodeOperation_eq_error {raw : Int} {fault : Fault}
    (h : decodeOperation raw = .error fault) :
    fault = .invalidInstruction raw := by
  unfold decodeOperation at h
  split at h
  · cases h
    rfl
  · split at h <;> cases h
    rfl

theorem decodeMode_eq_ok_iff {raw : Int} {i : Nat} {mode : Mode} :
    decodeMode raw i = .ok mode ↔ modeDigit raw i = mode.digit := by
  rw [← Mode.ofDigit?_eq_some_iff, decodeMode]
  cases Mode.ofDigit? (modeDigit raw i) <;> simp

theorem decodeMode_eq_error {raw : Int} {i : Nat} {fault : Fault}
    (h : decodeMode raw i = .error fault) :
    fault = .invalidInstruction raw := by
  unfold decodeMode at h
  split at h <;> cases h
  rfl

namespace Memory

variable {m : Memory} {a v raw ip : Int} {i n : Nat} {fault : Fault}

def Lacks (m : Memory) (fault : Fault) : Prop := ∃ a, fault = .outOfBounds a ∧ ¬ m.Contains a

theorem check_eq_ok_iff : m.check a = .ok () ↔ m.Contains a := by
  unfold check
  split <;> simp [*]

theorem write_eq_ok_iff {m' : Memory} : m.write a v = .ok m' ↔ m.Contains a ∧ m' = m.set a v := by
  unfold write
  by_cases h : m.Contains a <;> simp [h, eq_comm]

theorem lacks_of_check (h : m.check a = .error fault) : m.Lacks fault := by
  unfold check at h
  split at h
  · cases h
  · cases h
    exact ⟨a, rfl, ‹_›⟩

theorem contains_of_read (h : m.read a = .ok v) : m.Contains a := by
  unfold read at h
  split at h
  · assumption
  · cases h

theorem lacks_of_read (h : m.read a = .error fault) : m.Lacks fault := by
  unfold read at h
  split at h
  · cases h
  · cases h
    exact ⟨a, rfl, ‹_›⟩

theorem read_set (h : m.Contains a) (v : Int) : (m.set a v).read a = .ok v := by
  have hpos := h.1
  unfold read
  rw [dif_pos (contains_set.mpr h)]
  simp [set, hpos]

theorem getElem?_of_read (h : m.read a = .ok v) : m.toList[a.toNat]? = some v := by
  have hc := contains_of_read h
  have hlt := hc.toNat_lt
  unfold read at h
  rw [dif_pos hc, Except.ok.injEq] at h
  simp [toList, hlt, h]

theorem decode_eq_none_iff :
    m.decode ip = .ok none ↔ ∃ raw, m.read ip = .ok raw ∧ 0 ≤ raw ∧ raw % 100 = 99 := by
  unfold decode
  rw [bind_eq_ok_iff]
  refine exists_congr fun raw => and_congr_right fun _ => ?_
  rw [bind_eq_ok_iff]
  have hhalt := @decodeOperation_eq_ok_iff raw .halt
  constructor
  · rintro ⟨op, ho, hd⟩
    by_cases h : op = .halt
    · subst h
      exact hhalt.mp ho
    · rw [dif_neg h, bind_eq_ok_iff] at hd
      obtain ⟨xs, -, hn⟩ := hd
      cases hn
  · intro h
    exact ⟨.halt, hhalt.mpr h, rfl⟩

theorem operand_eq_ok_iff {x : Operand} : m.operand raw ip i = .ok x ↔
    modeDigit raw i = x.mode.digit ∧ m.read (ip + 1 + i) = .ok x.value ∧
      x.position = ip + 1 + i := by
  simp only [operand, bind_eq_ok_iff, decodeMode_eq_ok_iff]
  constructor
  · rintro ⟨mode, hmode, value, hvalue, h⟩
    cases h
    exact ⟨hmode, hvalue, rfl⟩
  · rintro ⟨hmode, hvalue, hposition⟩
    refine ⟨x.mode, hmode, x.value, hvalue, ?_⟩
    rw [← hposition]
    rfl

theorem operands_eq_ok_iff {xs : Vector Operand n} : m.operands raw ip n = .ok xs ↔
    ∀ (i : Nat) (hi : i < n), m.operand raw ip i = .ok xs[i] := by
  induction n with
  | zero =>
    have hnil : xs = #v[] := Vector.eq_empty
    rw [hnil]
    exact ⟨fun _ i hi => absurd hi i.not_lt_zero, fun _ => rfl⟩
  | succ n ih =>
    rw [operands, bind_eq_ok_iff]
    constructor
    · rintro ⟨ys, hys, h⟩ i hi
      obtain ⟨y, hy, h⟩ := bind_eq_ok_iff.mp h
      cases h
      rw [Vector.getElem_push]
      split
      · exact ih.mp hys i _
      · obtain rfl : i = n := by omega
        exact hy
    · intro h
      refine ⟨xs.pop, ih.mpr fun i hi => ?_, bind_eq_ok_iff.mpr ⟨xs.back, ?_, ?_⟩⟩
      · rw [Vector.getElem_pop]
        exact h i _
      · exact h n (Nat.lt_succ_self n)
      · exact congrArg Except.ok (Vector.push_pop_back xs)

theorem operand_eq_error (h : m.operand raw ip i = .error fault) :
    m.Lacks fault ∨ fault = .invalidInstruction raw := by
  obtain hmode | ⟨mode, -, h⟩ := bind_eq_error_iff.mp h
  · exact Or.inr (decodeMode_eq_error hmode)
  · obtain hread | ⟨v, -, h⟩ := bind_eq_error_iff.mp h
    · exact Or.inl (lacks_of_read hread)
    · cases h

theorem operands_eq_error (h : m.operands raw ip n = .error fault) :
    m.Lacks fault ∨ fault = .invalidInstruction raw := by
  induction n with
  | zero => cases h
  | succ n ih =>
    obtain hfirst | ⟨xs, -, h⟩ := bind_eq_error_iff.mp h
    · exact ih hfirst
    · obtain hlast | ⟨x, -, h⟩ := bind_eq_error_iff.mp h
      · exact operand_eq_error hlast
      · cases h

theorem decode_eq_error (h : m.decode ip = .error fault) :
    m.Lacks fault ∨ ∃ raw, fault = .invalidInstruction raw ∧ m.read ip = .ok raw := by
  obtain hread | ⟨raw, hraw, h⟩ := bind_eq_error_iff.mp h
  · exact Or.inl (lacks_of_read hread)
  · obtain hop | ⟨op, -, h⟩ := bind_eq_error_iff.mp h
    · exact Or.inr ⟨raw, decodeOperation_eq_error hop, hraw⟩
    · by_cases hhalt : op = .halt
      · rw [dif_pos hhalt] at h
        cases h
      · rw [dif_neg hhalt] at h
        obtain hxs | ⟨xs, -, h⟩ := bind_eq_error_iff.mp h
        · obtain hlacks | hinvalid := operands_eq_error hxs
          · exact Or.inl hlacks
          · exact Or.inr ⟨raw, hinvalid, hraw⟩
        · cases h

end Memory

theorem Operand.lacks_of_load {x : Operand} {m : Memory} {fault : Fault}
    (h : x.load m = .error fault) : m.Lacks fault := by
  unfold load at h
  split at h
  · cases h
  · exact Memory.lacks_of_read h

namespace Instruction

variable {ins : Instruction} {m : Memory} {pending : List Int} {e : Effect} {fault : Fault}

theorem exists_singleton : ∀ xs : Vector Operand 1, ∃ x, xs = #v[x]
  | ⟨⟨[x]⟩, _⟩ => ⟨x, rfl⟩

theorem exists_pair : ∀ xs : Vector Operand 2, ∃ x y, xs = #v[x, y]
  | ⟨⟨[x, y]⟩, _⟩ => ⟨x, y, rfl⟩

theorem exists_triple : ∀ xs : Vector Operand 3, ∃ x y z, xs = #v[x, y, z]
  | ⟨⟨[x, y, z]⟩, _⟩ => ⟨x, y, z, rfl⟩

theorem combine_eq_ok_iff {f : Int → Int → Int} {x y z : Operand} :
    combine f m #v[x, y, z] = .ok e ↔ ∃ a b, x.load m = .ok a ∧ y.load m = .ok b ∧
      m.Contains z.target ∧ e = .store z.target (f a b) := by
  simp only [combine, bind_eq_ok_iff, ← Memory.check_eq_ok_iff]
  constructor
  · rintro ⟨a, ha, b, hb, _, hc, h⟩
    cases h
    exact ⟨a, b, ha, hb, hc, rfl⟩
  · rintro ⟨a, b, ha, hb, hc, rfl⟩
    exact ⟨a, ha, b, hb, (), hc, rfl⟩

theorem branch_eq_ok_iff {taken : Int → Bool} {x y : Operand} :
    branch taken m #v[x, y] = .ok e ↔ ∃ v a, x.load m = .ok v ∧ y.load m = .ok a ∧
      e = if taken v then .jump a else .pass := by
  simp only [branch, bind_eq_ok_iff]
  constructor
  · rintro ⟨v, hv, a, ha, h⟩
    cases h
    exact ⟨v, a, hv, ha, rfl⟩
  · rintro ⟨v, a, hv, ha, rfl⟩
    exact ⟨v, hv, a, ha, rfl⟩

theorem receive_eq_ok_iff {x : Operand} :
    receive m x pending = .ok e ↔
      ∃ v rest, pending = v :: rest ∧ m.Contains x.target ∧ e = .receive x.target v := by
  cases pending with
  | nil => simp [receive]
  | cons v rest =>
    simp only [receive, bind_eq_ok_iff, ← Memory.check_eq_ok_iff]
    constructor
    · rintro ⟨_, hc, h⟩
      cases h
      exact ⟨v, rest, rfl, hc, rfl⟩
    · rintro ⟨_, _, hp, hc, rfl⟩
      cases hp
      exact ⟨(), hc, rfl⟩

theorem effect_cases (h : ins.effect m pending = .ok e) :
    (∃ a v, e = .store a v ∧ m.Contains a ∧ ins.resultAddress? = some a ∧
      ins.operation ≠ .input ∧ ins.operation ≠ .output) ∨
    (∃ a v rest, e = .receive a v ∧ m.Contains a ∧ ins.resultAddress? = some a ∧
      ins.operation = .input ∧ pending = v :: rest) ∨
    (∃ x v, e = .emit v ∧ ins.operation = .output ∧ ins.operands.toList = [x] ∧
      x.load m = .ok v) ∨
    ((∃ a, e = .jump a) ∨ e = .pass) ∧ ins.operation ≠ .input ∧ ins.operation ≠ .output := by
  obtain ⟨op, hop, xs⟩ := ins
  cases op with
  | add | multiply | lessThan | equals =>
    obtain ⟨x, y, z, rfl⟩ := exists_triple xs
    obtain ⟨a, b, -, -, hc, rfl⟩ := combine_eq_ok_iff.mp h
    exact Or.inl ⟨_, _, rfl, hc, rfl, by simp, by simp⟩
  | input =>
    obtain ⟨x, rfl⟩ := exists_singleton xs
    obtain ⟨v, rest, hp, hc, rfl⟩ := receive_eq_ok_iff.mp h
    exact Or.inr (Or.inl ⟨_, v, rest, rfl, hc, rfl, rfl, hp⟩)
  | output =>
    obtain ⟨x, rfl⟩ := exists_singleton xs
    obtain ⟨v, hv, h⟩ := bind_eq_ok_iff.mp h
    cases h
    exact Or.inr (Or.inr (Or.inl ⟨x, v, rfl, rfl, rfl, hv⟩))
  | jumpIfTrue | jumpIfFalse =>
    obtain ⟨x, y, rfl⟩ := exists_pair xs
    obtain ⟨v, a, -, -, rfl⟩ := branch_eq_ok_iff.mp h
    refine Or.inr (Or.inr (Or.inr ⟨?_, by simp, by simp⟩))
    split
    · exact Or.inl ⟨a, rfl⟩
    · exact Or.inr rfl
  | halt => exact absurd rfl hop

theorem lacks_of_combine {f : Int → Int → Int} {xs : Vector Operand 3}
    (h : combine f m xs = .error fault) : m.Lacks fault := by
  obtain ha | ⟨a, -, h⟩ := bind_eq_error_iff.mp h
  · exact Operand.lacks_of_load ha
  · obtain hb | ⟨b, -, h⟩ := bind_eq_error_iff.mp h
    · exact Operand.lacks_of_load hb
    · obtain hc | ⟨-, -, h⟩ := bind_eq_error_iff.mp h
      · exact Memory.lacks_of_check hc
      · cases h

theorem lacks_of_branch {taken : Int → Bool} {xs : Vector Operand 2}
    (h : branch taken m xs = .error fault) : m.Lacks fault := by
  obtain hv | ⟨v, -, h⟩ := bind_eq_error_iff.mp h
  · exact Operand.lacks_of_load hv
  · obtain hd | ⟨destination, -, h⟩ := bind_eq_error_iff.mp h
    · exact Operand.lacks_of_load hd
    · cases h

theorem effect_eq_error (h : ins.effect m pending = .error fault) :
    m.Lacks fault ∨ fault = .inputStarved ∧ ins.operation = .input ∧ pending = [] := by
  obtain ⟨op, hop, xs⟩ := ins
  cases op with
  | add | multiply | lessThan | equals => exact Or.inl (lacks_of_combine h)
  | jumpIfTrue | jumpIfFalse => exact Or.inl (lacks_of_branch h)
  | output =>
    obtain hv | ⟨v, -, h⟩ := bind_eq_error_iff.mp h
    · exact Or.inl (Operand.lacks_of_load hv)
    · cases h
  | input =>
    cases pending with
    | nil =>
      cases h
      exact Or.inr ⟨rfl, rfl, rfl⟩
    | cons v rest =>
      obtain hc | ⟨-, -, h⟩ := bind_eq_error_iff.mp h
      · exact Or.inl (Memory.lacks_of_check hc)
      · cases h
  | halt => exact absurd rfl hop

theorem pending_eq_cons {a v : Int} (h : ins.effect m pending = .ok (.receive a v)) :
    pending = v :: pending.tail := by
  obtain ⟨_, _, he, -⟩ | ⟨_, _, rest, he, -, -, -, rfl⟩ | ⟨_, _, he, -⟩ | ⟨⟨_, he⟩ | he, -⟩ :=
    effect_cases h
  all_goals cases he
  rfl

theorem effect_append (h : ins.effect m pending ≠ .error .inputStarved) (xs : List Int) :
    ins.effect m (pending ++ xs) = ins.effect m pending := by
  obtain ⟨op, hop, operands⟩ := ins
  cases op with
  | input =>
    cases pending with
    | nil => exact absurd rfl h
    | cons first rest => rfl
  | halt => exact absurd rfl hop
  | add | multiply | lessThan | equals | output | jumpIfTrue | jumpIfFalse => rfl

end Instruction

end Intcode
