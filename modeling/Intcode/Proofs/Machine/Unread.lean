import Intcode.Proofs.Machine.History

/-!
# Unread input

Two machines that differ only in what stands behind the same first inputs stay in step for as long
as no more input instructions are attempted than there are such inputs. The first inputs alone make
a third machine, and both are that machine with more fed to it; so all that has to be shown is that
it never meets the empty queue.
-/

namespace Intcode

namespace State

variable {s : State} {n : Nat} {xs : List Int}

/-- The cycle from this state carries out an input instruction, or fails to. -/
def attemptsInput (s : State) : Bool :=
  match s.next.2 with
  | .executed ins _ | .trapped (some ins) _ => ins.operation = .input
  | .halted | .trapped none _ | .idle | .refused _ => false

def inputAttempts (s : State) (n : Nat) : Nat :=
  (List.iterate advance s n).countP attemptsInput

theorem attemptsInput_of_decode {ins : Instruction} (h : s.status = .running)
    (hd : s.memory.decode s.ip = .ok (some ins)) :
    s.attemptsInput = decide (ins.operation = .input) := by
  unfold attemptsInput
  cases he : ins.effect s.memory s.pending with
  | error fault => rw [next_of_effect_error h hd he]; rfl
  | ok e => rw [next_of_effect h hd he]

theorem inputAttempts_succ (s : State) (n : Nat) :
    s.inputAttempts (n + 1) =
      s.inputAttempts n + if (advance^[n] s).attemptsInput then 1 else 0 := by
  rw [inputAttempts, List.iterate_add, List.countP_append]
  exact congrArg _ List.countP_singleton

theorem pending_suffix_advance (s : State) : s.advance.pending <:+ s.pending :=
  ⟨s.stored?.toList, s.pending_advance.symm⟩

theorem pending_suffix (s : State) (n : Nat) : (advance^[n] s).pending <:+ s.pending := by
  induction n with
  | zero => exact List.suffix_rfl
  | succ n ih =>
    rw [Function.iterate_succ_apply']
    exact (pending_suffix_advance _).trans ih

theorem attemptsInput_of_stored {v : Int} (h : s.stored? = some v) : s.attemptsInput = true := by
  obtain ⟨hc, -⟩ | ⟨ins, e, hc, hs, hd, -, -⟩ := s.completed_cases
  · simp [stored?, hc] at h
  · rw [attemptsInput_of_decode hs hd]
    by_cases hop : ins.operation = .input
    · exact decide_eq_true hop
    · rw [stored?_of_ne_input hc hop] at h
      cases h

theorem length_pending_advance (s : State) :
    s.pending.length ≤ (if s.attemptsInput then 1 else 0) + s.advance.pending.length := by
  have hlength := congrArg List.length s.pending_advance
  rw [List.length_append] at hlength
  cases hv : s.stored? with
  | none =>
    simp only [hv, Option.toList_none, List.length_nil] at hlength
    omega
  | some v =>
    simp only [hv, Option.toList_some, List.length_singleton] at hlength
    simp only [attemptsInput_of_stored hv, if_true]
    omega

theorem length_pending_le (s : State) (n : Nat) :
    s.pending.length ≤ s.inputAttempts n + (advance^[n] s).pending.length := by
  induction n with
  | zero => exact Nat.le_add_left _ _
  | succ n ih =>
    have hlast := length_pending_advance (advance^[n] s)
    rw [inputAttempts_succ, Function.iterate_succ_apply']
    omega

theorem missed_of_starved (hs : s.status = .running) (h : s.advance.Starved) :
    s.pending = [] ∧ ∃ ins, s.memory.decode s.ip = .ok (some ins) ∧ ins.operation = .input := by
  obtain ⟨ip, hstatus⟩ := h
  unfold advance at hstatus
  obtain ⟨fault, hd, hn⟩ | ⟨-, hn⟩ | ⟨ins, fault, hd, he, hn⟩ | ⟨ins, e, -, -, hn⟩ := next_cases hs
  all_goals rw [hn] at hstatus
  · cases hstatus
    obtain ⟨a, hlacks, -⟩ | ⟨raw, hinvalid, -⟩ := Memory.decode_eq_error hd
    · cases hlacks
    · cases hinvalid
  · cases hstatus
  · cases hstatus
    obtain ⟨a, hlacks, -⟩ | ⟨-, hop, hp⟩ := Instruction.effect_eq_error he
    · cases hlacks
    · exact ⟨hp, ins, hd, hop⟩
  · rw [status_apply, hs] at hstatus
    cases hstatus

def Supplied (s : State) (n : Nat) : Prop :=
  ∀ k < n, (advance^[k] s).status = .running → ¬ (advance^[k + 1] s).Starved

theorem Supplied.next_feed (h : s.Supplied n) {k : Nat} (hk : k < n) (xs : List Int) :
    ((advance^[k] s).feed xs).next =
      ((advance^[k + 1] s).feed xs, (advance^[k] s).next.2) := by
  have hkth := h k hk
  rw [Function.iterate_succ_apply'] at hkth ⊢
  cases hs : (advance^[k] s).status with
  | running => exact State.next_feed (hkth hs) xs
  | halted =>
    rw [advance_of_stopped (by simp [hs]), next_of_halted hs]
    exact next_of_halted (s := (advance^[k] s).feed xs) hs
  | faulted trap =>
    rw [advance_of_stopped (by simp [hs]), next_of_faulted hs]
    exact next_of_faulted (s := (advance^[k] s).feed xs) hs

theorem Supplied.iterate_feed (h : s.Supplied n) (xs : List Int) :
    advance^[n] (s.feed xs) = (advance^[n] s).feed xs := by
  induction n with
  | zero => rfl
  | succ n ih =>
    have hbefore := ih fun k hk => h k (Nat.lt_succ_of_lt hk)
    rw [Function.iterate_succ_apply', hbefore]
    exact congrArg Prod.fst (h.next_feed (Nat.lt_succ_self n) xs)

theorem supplied_of_inputAttempts (h : (s.feed xs).inputAttempts n ≤ s.pending.length) :
    s.Supplied n := by
  induction n with
  | zero =>
    intro k hk
    exact absurd hk (Nat.not_lt_zero k)
  | succ n ih =>
    have hsucc := inputAttempts_succ (s.feed xs) n
    have hbefore := ih (by omega)
    intro k hk hrun hstarved
    obtain hlt | rfl := Nat.lt_succ_iff_lt_or_eq.mp hk
    · exact hbefore k hlt hrun hstarved
    · -- All the machine's own inputs are used up, so each has cost an attempt, and the cycle that
      -- misses one is an attempt too.
      rw [Function.iterate_succ_apply'] at hstarved
      obtain ⟨hp, ins, hd, hop⟩ := missed_of_starved hrun hstarved
      have hattempt : ((advance^[k] s).feed xs).attemptsInput = true := by
        rw [attemptsInput_of_decode (s := (advance^[k] s).feed xs) hrun hd, hop]
        rfl
      have hlength := length_pending_le (s.feed xs) k
      rw [hbefore.iterate_feed xs, hattempt] at hsucc
      rw [hbefore.iterate_feed xs] at hlength
      simp only [feed, hp, List.nil_append, List.length_append, if_true] at hlength hsucc h
      omega

theorem supplied_of_running (h : (advance^[n] s).status = .running) : s.Supplied n := by
  intro k hk _ ⟨ip, hstarved⟩
  have hstop : (advance^[k + 1] s).status ≠ .running := by
    rw [hstarved]
    simp
  rw [iterate_of_stopped hstop hk, hstarved] at h
  cases h

theorem outputs_of_starved (hs : s.status = .running) (h : s.advance.Starved) :
    s.advance.outputs = s.outputs := by
  obtain ⟨-, status, ha⟩ | ⟨ins, e, -, -, -, -, ha⟩ := s.completed_cases
  · rw [ha]
  · obtain ⟨ip, hstatus⟩ := h
    rw [ha, status_apply, hs] at hstatus
    cases hstatus

theorem exists_supplied (s : State) (n : Nat) :
    ∃ k ≤ n, s.Supplied k ∧ (advance^[n] s).outputs = (advance^[k] s).outputs := by
  induction n with
  | zero => exact ⟨0, le_rfl, fun k hk => absurd hk (Nat.not_lt_zero k), rfl⟩
  | succ n ih =>
    rw [Function.iterate_succ_apply']
    by_cases hrun : (advance^[n] s).status = .running
    · have hsupplied := supplied_of_running hrun
      by_cases hstarved : (advance^[n] s).advance.Starved
      · exact ⟨n, Nat.le_succ n, hsupplied, outputs_of_starved hrun hstarved⟩
      · refine ⟨n + 1, le_rfl, ?_, by rw [Function.iterate_succ_apply']⟩
        intro k hk hkrun
        obtain hlt | rfl := Nat.lt_succ_iff_lt_or_eq.mp hk
        · exact hsupplied k hlt hkrun
        · rwa [Function.iterate_succ_apply']
    · obtain ⟨k, hk, hsupplied, houtputs⟩ := ih
      refine ⟨k, Nat.le_succ_of_le hk, hsupplied, ?_⟩
      rw [advance_of_stopped hrun, houtputs]

theorem outputs_prefix_feed (s : State) (xs : List Int) {n k : Nat} (hk : n ≤ k) :
    (advance^[n] s).outputs.toList <+: (advance^[k] (s.feed xs)).outputs.toList := by
  obtain ⟨j, hj, hsupplied, houtputs⟩ := s.exists_supplied n
  have hfeed : (advance^[j] (s.feed xs)).outputs = (advance^[n] s).outputs := by
    rw [hsupplied.iterate_feed, houtputs]
    rfl
  obtain ⟨d, rfl⟩ := Nat.exists_eq_add_of_le' (hj.trans hk)
  rw [Function.iterate_add_apply, ← hfeed]
  exact outputs_prefix _ d

structure Alike (s t : State) : Prop where
  memory : t.memory = s.memory
  ip : t.ip = s.ip
  outputs : t.outputs = s.outputs
  status : t.status = s.status

theorem Alike.eq_feed {s t : State} {p u v : List Int} (h : s.Alike t) (hs : s.pending = p ++ u)
    (ht : t.pending = p ++ v) :
    ∃ b : State, b.pending = p ∧ s = b.feed u ∧ t = b.feed v := by
  refine ⟨{ s with pending := p }, rfl, ?_, ?_⟩
  · simp [feed, ← hs]
  · obtain ⟨hmemory, hip, houtputs, hstatus⟩ := h
    simp [feed, ← ht, ← hmemory, ← hip, ← houtputs, ← hstatus]

theorem alike_feed (s : State) (u v : List Int) : (s.feed u).Alike (s.feed v) := ⟨rfl, rfl, rfl, rfl⟩

end State

namespace Machine

/-- Inputs that no input instruction gets to can be exchanged for others without any other trace,
and a run on the first inputs alone emits a beginning of what it emits with more behind them. -/
theorem nexts_unread {m₁ m₂ : Machine} {p u v : List Int} (h : m₁.toState.Alike m₂.toState)
    (h₁ : m₁.pending = p ++ u) (h₂ : m₂.pending = p ++ v) :
    (∀ n, m₁.inputAttempts n ≤ p.length →
      (m₁.nexts n).1.toState.Alike (m₂.nexts n).1.toState ∧ (m₂.nexts n).2 = (m₁.nexts n).2 ∧
      ∃ r, r <:+ p ∧ (m₁.nexts n).1.pending = r ++ u ∧ (m₂.nexts n).1.pending = r ++ v) ∧
    (u = [] → ∀ n k, n ≤ k →
      (m₁.nexts n).1.outputs.toList <+: (m₂.nexts k).1.outputs.toList) := by
  obtain ⟨b, rfl, hb₁, hb₂⟩ := h.eq_feed h₁ h₂
  constructor
  · intro n hn
    rw [hb₁] at hn
    have hsupplied := State.supplied_of_inputAttempts hn
    -- The machine with the first inputs alone stands between the two.
    let m : Machine := ⟨b, false, #[]⟩
    obtain ⟨hstate₁, hreplies₁⟩ := nexts_lockstep (m := m) (f := (·.feed u)) hb₁
      fun k hk => hsupplied.next_feed hk u
    obtain ⟨hstate₂, hreplies₂⟩ := nexts_lockstep (m := m) (f := (·.feed v)) hb₂
      fun k hk => hsupplied.next_feed hk v
    refine ⟨?_, hreplies₂.trans hreplies₁.symm, (m.nexts n).1.pending, ?_, ?_, ?_⟩
    · rw [hstate₁, hstate₂]
      exact State.alike_feed _ u v
    · rw [toState_nexts]
      exact State.pending_suffix b n
    · rw [hstate₁]
      rfl
    · rw [hstate₂]
      rfl
  · rintro rfl n k hk
    rw [toState_nexts, toState_nexts, hb₁, hb₂]
    have hnil : b.feed [] = b := by simp [State.feed]
    rw [hnil]
    exact b.outputs_prefix_feed v hk

theorem nexts_unread_opcode :
    let less := start (.ofList [3, 2, 0, 0, 3, 2, 99]) [4] true
    let more := start (.ofList [3, 2, 0, 0, 3, 2, 99]) [4, 5] false
    (more.nexts 2).1.toState.Alike (less.nexts 2).1.toState ∧
      (less.nexts 2).2 = [.ok none, .ok (some 3)] ∧
      (less.nexts 3).1.outputs.toList <+: (more.nexts 9).1.outputs.toList := by
  intro less more
  have hmore : more.toState.Alike less.toState := ⟨rfl, rfl, rfl, rfl⟩
  have hless : less.toState.Alike more.toState := ⟨rfl, rfl, rfl, rfl⟩
  obtain ⟨hstate, hreplies, -⟩ :=
    (nexts_unread (p := [4]) (u := [5]) (v := []) hmore rfl rfl).1 2 (by decide)
  have hprefix := (nexts_unread (p := [4]) (u := []) (v := [5]) hless rfl rfl).2 rfl 3 9 (by decide)
  exact ⟨hstate, hreplies, hprefix⟩

end Machine

end Intcode
