import Intcode.Proofs.Machine.Effect
import Intcode.Proofs.Machine.Run

/-!
# Longer memories

Cells behind the end of a memory cannot be noticed. Everything that reads, decodes or checks gives
the same answer on the longer memory, unless the answer on the shorter one was that a cell is
missing; so two machines that differ in such cells stay in step until the shorter one meets a
missing cell.
-/

namespace Intcode

/-- The second answer repeats the first one, unless that one is a missing cell. -/
def Persists {α : Type} (x y : Except Fault α) : Prop := (∃ a, x = .error (.outOfBounds a)) ∨ y = x

namespace Persists

variable {α β : Type} {x y : Except Fault α} {fault : Fault} {v : α}

theorem refl (x : Except Fault α) : Persists x x := Or.inr rfl

theorem bind {f g : α → Except Fault β} (hx : Persists x y) (hf : ∀ v, Persists (f v) (g v)) :
    Persists (x >>= f) (y >>= g) := by
  obtain ⟨a, rfl⟩ | rfl := hx
  · exact Or.inl ⟨a, rfl⟩
  · cases y with
    | error fault => exact Or.inr rfl
    | ok v => exact hf v

theorem eq_ok (h : Persists x y) (hx : x = .ok v) : y = .ok v := by
  obtain ⟨a, ha⟩ | rfl := h
  · rw [ha] at hx
    cases hx
  · exact hx

theorem eq_error (h : Persists x y) (hx : x = .error fault) :
    (∃ a, fault = .outOfBounds a) ∨ y = .error fault := by
  obtain ⟨a, ha⟩ | rfl := h
  · rw [ha] at hx
    cases hx
    exact Or.inl ⟨a, rfl⟩
  · exact Or.inr hx

end Persists

namespace Memory

variable {m : Memory} {a : Int}

def extend (m : Memory) (extra : List Int) : Memory := ⟨m.cells ++ extra.toArray⟩

theorem toList_extend (m : Memory) (extra : List Int) :
    (m.extend extra).toList = m.toList ++ extra := by
  simp [extend, toList]

theorem ofList_append (xs extra : List Int) : ofList (xs ++ extra) = (ofList xs).extend extra := by
  simp [extend, ofList]

theorem Contains.extend (h : m.Contains a) (extra : List Int) : (m.extend extra).Contains a := by
  obtain ⟨hpos, hlt⟩ := h
  refine ⟨hpos, ?_⟩
  unfold size Memory.extend at *
  rw [Array.size_append]
  omega

theorem set_extend (h : m.Contains a) (v : Int) (extra : List Int) :
    (m.extend extra).set a v = (m.set a v).extend extra := by
  have hlt := h.toNat_lt
  simp [set, extend, h.1, hlt]

theorem persists_read (m : Memory) (a : Int) (extra : List Int) :
    Persists (m.read a) ((m.extend extra).read a) := by
  unfold read
  by_cases h : m.Contains a
  · have hlt := h.toNat_lt
    rw [dif_pos h, dif_pos (h.extend extra)]
    right
    simp [extend, Array.getElem_append_left hlt]
  · rw [dif_neg h]
    exact Or.inl ⟨a, rfl⟩

theorem persists_check (m : Memory) (a : Int) (extra : List Int) :
    Persists (m.check a) ((m.extend extra).check a) := by
  unfold check
  by_cases h : m.Contains a
  · rw [if_pos h, if_pos (h.extend extra)]
    exact .refl _
  · rw [if_neg h]
    exact Or.inl ⟨a, rfl⟩

theorem persists_operands (m : Memory) (raw ip : Int) (n : Nat) (extra : List Int) :
    Persists (m.operands raw ip n) ((m.extend extra).operands raw ip n) := by
  induction n with
  | zero => exact .refl _
  | succ n ih =>
    refine ih.bind fun xs => ?_
    refine Persists.bind ?_ fun x => .refl _
    refine Persists.bind (.refl _) fun mode => ?_
    exact (m.persists_read _ extra).bind fun v => .refl _

theorem persists_decode (m : Memory) (ip : Int) (extra : List Int) :
    Persists (m.decode ip) ((m.extend extra).decode ip) := by
  refine (m.persists_read ip extra).bind fun raw => ?_
  refine Persists.bind (.refl _) fun op => ?_
  by_cases h : op = .halt
  · rw [dif_pos h, dif_pos h]
    exact .refl _
  · rw [dif_neg h, dif_neg h]
    exact (m.persists_operands raw ip _ extra).bind fun xs => .refl _

end Memory

theorem Operand.persists_load (x : Operand) (m : Memory) (extra : List Int) :
    Persists (x.load m) (x.load (m.extend extra)) := by
  unfold load
  cases x.mode with
  | immediate => exact .refl _
  | position => exact m.persists_read x.value extra

theorem Instruction.persists_effect (ins : Instruction) (m : Memory) (pending extra : List Int) :
    Persists (ins.effect m pending) (ins.effect (m.extend extra) pending) := by
  have of_combine : ∀ f xs, Persists (combine f m xs) (combine f (m.extend extra) xs) := by
    intro f xs
    refine (xs[0].persists_load m extra).bind fun a => ?_
    refine (xs[1].persists_load m extra).bind fun b => ?_
    exact (m.persists_check _ extra).bind fun _ => .refl _
  have of_branch : ∀ taken xs, Persists (branch taken m xs) (branch taken (m.extend extra) xs) := by
    intro taken xs
    refine (xs[0].persists_load m extra).bind fun v => ?_
    exact (xs[1].persists_load m extra).bind fun destination => .refl _
  obtain ⟨op, hop, xs⟩ := ins
  cases op with
  | add | multiply | lessThan | equals => exact of_combine _ xs
  | jumpIfTrue | jumpIfFalse => exact of_branch _ xs
  | output => exact (Operand.persists_load _ m extra).bind fun v => .refl _
  | input =>
    cases pending with
    | nil => exact .refl _
    | cons v rest => exact (m.persists_check _ extra).bind fun _ => .refl _
  | halt => exact absurd rfl hop

namespace State

variable {s : State} {n : Nat}

def extend (s : State) (extra : List Int) : State := { s with memory := s.memory.extend extra }

def OutOfBounds (s : State) : Prop := ∃ a ip, s.status = .faulted ⟨.outOfBounds a, ip⟩

theorem apply_extend {ins : Instruction} {e : Effect}
    (he : ins.effect s.memory s.pending = .ok e) (extra : List Int) :
    (s.extend extra).apply ins e = (s.apply ins e).extend extra := by
  obtain ⟨a, v, rfl, hm, -⟩ | ⟨a, v, rest, rfl, hm, -⟩ | ⟨x, v, rfl, -⟩ | ⟨⟨a, rfl⟩ | rfl, -⟩ :=
    Instruction.effect_cases he
  · simp [apply, extend, Memory.set_extend hm]
  · simp [apply, extend, Memory.set_extend hm]
  · rfl
  · rfl
  · rfl

theorem next_extend (h : ¬ s.advance.OutOfBounds) (extra : List Int) :
    (s.extend extra).next = (s.advance.extend extra, s.next.2) := by
  unfold advance at h ⊢
  cases hs : s.status with
  | halted => rw [next_of_halted hs, next_of_halted (s := s.extend extra) hs]
  | faulted trap => rw [next_of_faulted hs, next_of_faulted (s := s.extend extra) hs]
  | running =>
    have hdecode := s.memory.persists_decode s.ip extra
    obtain ⟨fault, hd, hn⟩ | ⟨hd, hn⟩ | ⟨ins, fault, hd, he, hn⟩ | ⟨ins, e, hd, he, hn⟩ :=
      next_cases hs
    all_goals rw [hn] at h ⊢
    · obtain ⟨a, rfl⟩ | hd' := hdecode.eq_error hd
      · exact absurd ⟨a, s.ip, rfl⟩ h
      · exact next_of_decode_error (s := s.extend extra) hs hd'
    · exact next_of_halt (s := s.extend extra) hs (hdecode.eq_ok hd)
    · obtain ⟨a, rfl⟩ | he' := (ins.persists_effect s.memory s.pending extra).eq_error he
      · exact absurd ⟨a, s.ip, rfl⟩ h
      · exact next_of_effect_error (s := s.extend extra) hs (hdecode.eq_ok hd) he'
    · have he' := (ins.persists_effect s.memory s.pending extra).eq_ok he
      rw [next_of_effect (s := s.extend extra) hs (hdecode.eq_ok hd) he', apply_extend he]

theorem OutOfBounds.iterate {k : Nat} (h : (advance^[k] s).OutOfBounds) (hk : k ≤ n) :
    (advance^[n] s).OutOfBounds := by
  obtain ⟨a, ip, hstatus⟩ := h
  have hstop : (advance^[k] s).status ≠ .running := by
    rw [hstatus]
    simp
  rw [iterate_of_stopped hstop hk]
  exact ⟨a, ip, hstatus⟩

end State

/-- A machine behaves the same on a longer program until it meets a missing cell on the shorter
one, and it leaves the additional cells as they are. -/
theorem Machine.nexts_extended_program {program extra inputs : List Int} {trace : Bool} {n : Nat}
    (h : ∀ a ip, ((start (.ofList program) inputs trace).nexts n).1.status ≠
      .faulted ⟨.outOfBounds a, ip⟩) (trace' : Bool) :
    let short := (start (.ofList program) inputs trace).nexts n
    let long := (start (.ofList (program ++ extra)) inputs trace').nexts n
    long.1.memory.toList = short.1.memory.toList ++ extra ∧
      long.1.ip = short.1.ip ∧ long.1.pending = short.1.pending ∧
      long.1.outputs = short.1.outputs ∧ long.1.status = short.1.status ∧ long.2 = short.2 := by
  intro short long
  have hbounds : ¬ (State.advance^[n] (start (.ofList program) inputs trace).toState).OutOfBounds := by
    rintro ⟨a, ip, hstatus⟩
    rw [← toState_nexts] at hstatus
    exact h a ip hstatus
  have hstart : (start (.ofList (program ++ extra)) inputs trace').toState =
      (start (.ofList program) inputs trace).toState.extend extra := by
    simp [start, State.extend, Memory.ofList_append]
  obtain ⟨hstate, hreplies⟩ := nexts_lockstep (f := (·.extend extra)) hstart (by
    intro k hk
    rw [Function.iterate_succ_apply']
    refine State.next_extend ?_ extra
    intro hk'
    -- A missing cell stays on record, so it would show after the last cycle.
    rw [← Function.iterate_succ_apply' State.advance] at hk'
    exact hbounds (hk'.iterate hk))
  have hlong : long.1.toState = short.1.toState.extend extra := hstate
  refine ⟨?_, ?_, ?_, ?_, ?_, hreplies⟩
  · rw [hlong]
    exact Memory.toList_extend _ _
  all_goals
    rw [hlong]
    rfl

theorem Machine.nexts_extended_program_halt :
    let long := (start (.ofList ([1101, 1, 1, 5, 104, 0, 99] ++ [-7, 8])) [] true).nexts 5
    long.1.memory.toList = [1101, 1, 1, 5, 104, 2, 99] ++ [-7, 8] ∧ long.1.status = .halted ∧
      long.2 = [.ok none, .ok (some 2), .ok none, .ok none, .ok none] := by
  have hhalted : ((start (.ofList [1101, 1, 1, 5, 104, 0, 99]) [] false).nexts 5).1.status =
      .halted := rfl
  obtain ⟨hmemory, -, -, -, hstatus, hreplies⟩ :=
    @nexts_extended_program [1101, 1, 1, 5, 104, 0, 99] [-7, 8] [] false 5
      (by intro a ip; rw [hhalted]; simp) true
  exact ⟨hmemory, hstatus.trans hhalted, hreplies⟩

end Intcode
