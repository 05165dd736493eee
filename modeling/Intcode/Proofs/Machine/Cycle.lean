import Intcode.Machine
import Intcode.Proofs.Machine.Effect
import Mathlib.Logic.Function.Iterate

/-!
# Instruction cycles

What one cycle, and any number of cycles, can do to a state. A cycle looks at the front of the
queue of pending inputs only. Queueing more inputs therefore changes what it does in one case:
when an input instruction has met the empty queue.
-/

namespace Intcode

def emitted : Except Trap (Option Int) → List Int
  | .ok (some v) => [v]
  | .ok none | .error _ => []

namespace State

variable {s : State} {xs : List Int}

def advance (s : State) : State := s.next.1

/-- The state is final because an input instruction met the empty queue. -/
def Starved (s : State) : Prop := ∃ ip, s.status = .faulted ⟨.inputStarved, ip⟩

theorem next_of_halted (h : s.status = .halted) : s.next = (s, .idle) := by
  simp only [next, h]

theorem next_of_faulted {trap : Trap} (h : s.status = .faulted trap) :
    s.next = (s, .refused trap) := by
  simp only [next, h]

theorem next_of_decode_error {fault : Fault} (h : s.status = .running)
    (hd : s.memory.decode s.ip = .error fault) : s.next = s.trap none fault := by
  simp only [next, h, hd]

theorem next_of_halt (h : s.status = .running) (hd : s.memory.decode s.ip = .ok none) :
    s.next = ({ s with status := .halted }, .halted) := by
  simp only [next, h, hd]

theorem next_of_effect_error {ins : Instruction} {fault : Fault} (h : s.status = .running)
    (hd : s.memory.decode s.ip = .ok (some ins))
    (he : ins.effect s.memory s.pending = .error fault) : s.next = s.trap ins fault := by
  simp only [next, h, hd, he]

theorem next_of_effect {ins : Instruction} {e : Effect} (h : s.status = .running)
    (hd : s.memory.decode s.ip = .ok (some ins))
    (he : ins.effect s.memory s.pending = .ok e) : s.next = (s.apply ins e, .executed ins e) := by
  simp only [next, h, hd, he]

theorem next_cases (h : s.status = .running) :
    (∃ fault, s.memory.decode s.ip = .error fault ∧ s.next = s.trap none fault) ∨
    (s.memory.decode s.ip = .ok none ∧ s.next = ({ s with status := .halted }, .halted)) ∨
    (∃ ins fault, s.memory.decode s.ip = .ok (some ins) ∧
      ins.effect s.memory s.pending = .error fault ∧ s.next = s.trap ins fault) ∨
    ∃ ins e, s.memory.decode s.ip = .ok (some ins) ∧
      ins.effect s.memory s.pending = .ok e ∧ s.next = (s.apply ins e, .executed ins e) := by
  cases hd : s.memory.decode s.ip with
  | error fault => exact Or.inl ⟨fault, rfl, next_of_decode_error h hd⟩
  | ok decoded =>
    cases decoded with
    | none => exact Or.inr (Or.inl ⟨rfl, next_of_halt h hd⟩)
    | some ins =>
      cases he : ins.effect s.memory s.pending with
      | error fault =>
        exact Or.inr (Or.inr (Or.inl ⟨ins, fault, rfl, he, next_of_effect_error h hd he⟩))
      | ok e => exact Or.inr (Or.inr (Or.inr ⟨ins, e, rfl, he, next_of_effect h hd he⟩))

theorem advance_of_stopped (h : s.status ≠ .running) : s.advance = s := by
  cases hs : s.status with
  | running => exact absurd hs h
  | halted => rw [advance, next_of_halted hs]
  | faulted trap => rw [advance, next_of_faulted hs]

def completed? (s : State) : Option Instruction :=
  match s.next.2 with
  | .executed ins _ => some ins
  | .halted | .trapped .. | .idle | .refused _ => none

theorem completed_cases (s : State) :
    (s.completed? = none ∧ ∃ status, s.advance = { s with status }) ∨
    ∃ ins e, s.completed? = some ins ∧ s.status = .running ∧
      s.memory.decode s.ip = .ok (some ins) ∧ ins.effect s.memory s.pending = .ok e ∧
      s.advance = s.apply ins e := by
  unfold completed? advance
  cases hs : s.status with
  | halted => rw [next_of_halted hs]; exact Or.inl ⟨rfl, s.status, rfl⟩
  | faulted trap => rw [next_of_faulted hs]; exact Or.inl ⟨rfl, s.status, rfl⟩
  | running =>
    obtain ⟨fault, -, hn⟩ | ⟨-, hn⟩ | ⟨ins, fault, -, -, hn⟩ | ⟨ins, e, hd, he, hn⟩ :=
      next_cases hs
    all_goals rw [hn]
    · exact Or.inl ⟨rfl, _, rfl⟩
    · exact Or.inl ⟨rfl, _, rfl⟩
    · exact Or.inl ⟨rfl, _, rfl⟩
    · exact Or.inr ⟨ins, e, rfl, rfl, hd, he, rfl⟩

theorem status_apply (ins : Instruction) (e : Effect) : (s.apply ins e).status = s.status := by
  cases e <;> rfl

theorem outputs_apply (ins : Instruction) (e : Effect) :
    (s.apply ins e).outputs.toList = s.outputs.toList ++ emitted (.ok e.emitted?) := by
  cases e with
  | emit v => simp [apply, emitted, Effect.emitted?]
  | store | receive | jump | pass => simp [apply, emitted, Effect.emitted?]

theorem outputs_advance (s : State) :
    s.advance.outputs.toList = s.outputs.toList ++ emitted s.next.2.reply := by
  unfold advance
  cases hs : s.status with
  | halted => simp [next_of_halted hs, Step.reply, emitted]
  | faulted trap => simp [next_of_faulted hs, Step.reply, emitted]
  | running =>
    obtain ⟨_, -, hn⟩ | ⟨-, hn⟩ | ⟨_, _, -, -, hn⟩ | ⟨ins, e, -, -, hn⟩ := next_cases hs
    · simp [hn, trap, Step.reply, emitted]
    · simp [hn, Step.reply, emitted]
    · simp [hn, trap, Step.reply, emitted]
    · rw [hn]
      exact outputs_apply ins e

theorem status_of_error {trap : Trap} (h : s.next.2.reply = .error trap) :
    s.advance.status = .faulted trap := by
  unfold advance
  cases hs : s.status with
  | halted => rw [next_of_halted hs] at h; cases h
  | faulted _ => rw [next_of_faulted hs] at h ⊢; cases h; exact hs
  | running =>
    obtain ⟨_, -, hn⟩ | ⟨-, hn⟩ | ⟨_, _, -, -, hn⟩ | ⟨ins, e, -, -, hn⟩ := next_cases hs
    all_goals rw [hn] at h ⊢; cases h
    · rfl
    · rfl

theorem status_of_emitted {v : Int} (h : s.next.2.reply = .ok (some v)) :
    s.status = .running ∧ s.advance.status = .running := by
  unfold advance
  cases hs : s.status with
  | halted => rw [next_of_halted hs] at h; cases h
  | faulted _ => rw [next_of_faulted hs] at h; cases h
  | running =>
    obtain ⟨_, -, hn⟩ | ⟨-, hn⟩ | ⟨_, _, -, -, hn⟩ | ⟨ins, e, -, -, hn⟩ := next_cases hs
    all_goals rw [hn] at h ⊢
    · cases h
    · cases h
    · cases h
    · exact ⟨rfl, (status_apply ins e).trans hs⟩

theorem next_feed (h : ¬ s.advance.Starved) (xs : List Int) :
    (s.feed xs).next = (s.advance.feed xs, s.next.2) := by
  unfold advance at h ⊢
  cases hs : s.status with
  | halted => rw [next_of_halted hs, next_of_halted (s := s.feed xs) hs]
  | faulted trap => rw [next_of_faulted hs, next_of_faulted (s := s.feed xs) hs]
  | running =>
    obtain ⟨fault, hd, hn⟩ | ⟨hd, hn⟩ | ⟨ins, fault, hd, he, hn⟩ | ⟨ins, e, hd, he, hn⟩ :=
      next_cases hs
    · rw [hn, next_of_decode_error (s := s.feed xs) hs hd]
      rfl
    · rw [hn, next_of_halt (s := s.feed xs) hs hd]
      rfl
    · have hne : ins.effect s.memory s.pending ≠ .error .inputStarved := by
        intro hc
        rw [hc] at he
        cases he
        exact h ⟨s.ip, by rw [hn]; rfl⟩
      have ha := (ins.effect_append hne xs).trans he
      rw [hn, next_of_effect_error (s := s.feed xs) hs hd ha]
      rfl
    · have hne : ins.effect s.memory s.pending ≠ .error .inputStarved := by
        rw [he]
        simp
      have ha := (ins.effect_append hne xs).trans he
      rw [hn, next_of_effect (s := s.feed xs) hs hd ha]
      cases e with
      | receive a v =>
        have hp := ins.pending_eq_cons he
        simp only [apply, feed]
        rw [hp]
        rfl
      | store | emit | jump | pass => rfl

theorem outputs_prefix (s : State) (n : Nat) :
    s.outputs.toList <+: (advance^[n] s).outputs.toList := by
  induction n with
  | zero => exact List.prefix_rfl
  | succ n ih =>
    rw [Function.iterate_succ_apply', outputs_advance]
    exact ih.trans (List.prefix_append _ _)

theorem iterate_of_stopped {n k : Nat} (h : (advance^[n] s).status ≠ .running) (hk : n ≤ k) :
    advance^[k] s = advance^[n] s := by
  obtain ⟨d, rfl⟩ := Nat.exists_eq_add_of_le' hk
  rw [Function.iterate_add_apply]
  exact Function.iterate_fixed (advance_of_stopped h) d

theorem Starved.advance (h : s.Starved) : s.advance.Starved := by
  obtain ⟨ip, hs⟩ := h
  rw [advance_of_stopped (by rw [hs]; simp)]
  exact ⟨ip, hs⟩

theorem iterate_feed {n : Nat} (h : ¬ (advance^[n] s).Starved) (xs : List Int) :
    advance^[n] (s.feed xs) = (advance^[n] s).feed xs := by
  induction n with
  | zero => rfl
  | succ n ih =>
    rw [Function.iterate_succ_apply'] at h ⊢
    rw [ih (mt Starved.advance h), Function.iterate_succ_apply']
    unfold State.advance at h ⊢
    rw [next_feed h xs]
    rfl

end State

end Intcode
