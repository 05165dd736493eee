import Intcode.Proofs.Machine.History
import Intcode.Proofs.Machine.Invariant
import Intcode.Proofs.Machine.Table
import Mathlib.Data.List.Chain

/-!
# Termination

Programs rewrite themselves, so what they will do cannot be read off them. Every instruction but a
taken jump moves the pointer forward, though, and the memory keeps its size. Main statement: no more
instructions than the memory has cells are completed in a row without a jump that leads to its own
address or to one before it, and a machine that takes no such jump comes to its end.
-/

namespace Intcode

namespace Row

variable {s after : State} {reply : Option Int} {op : Operation} {xs : List Operand}

theorem forward_or_jump (h : Row s op xs after reply) :
    s.ip < after.ip ∨ ∃ (taken : Int → Prop) (x y : Operand) (v : Int),
      op.condition? = some taken ∧ xs = [x, y] ∧ x.Means s.memory v ∧ taken v ∧
        y.Means s.memory after.ip := by
  cases h with
  | jump hop hx hy hv => exact Or.inr ⟨_, _, _, _, hop, rfl, hx, hv, hy⟩
  | compute | receive | emit | pass =>
    left
    dsimp only
    omega

end Row

namespace State

variable {s : State} {size : Nat} {cycles window : List State}

/-- The cycle takes a jump that leads to its own address or to one before it. -/
inductive JumpsBack (s : State) : Prop
  | intro {ins : Instruction} {taken : Int → Prop} {x y : Operand} {v a : Int}
      (hc : s.completed? = some ins) (hop : ins.operation.condition? = some taken)
      (hxs : ins.operands.toList = [x, y]) (hx : x.Means s.memory v) (hv : taken v)
      (hy : y.Means s.memory a) (hback : a ≤ s.ip) : JumpsBack s

theorem jumpsBack_iff : s.JumpsBack ↔ s.completed?.isSome ∧ s.advance.ip ≤ s.ip := by
  obtain ⟨hnone, -⟩ | ⟨ins, e, hins, -, hd, he, ha⟩ := s.completed_cases
  · constructor
    · rintro ⟨hc, -⟩
      cases hnone.symm.trans hc
    · rintro ⟨hc, -⟩
      rw [hnone] at hc
      cases hc
  · constructor
    · rintro ⟨hc, hop, hxs, hx, hv, hy, hback⟩
      cases hins.symm.trans hc
      -- An instruction has one effect, so the row of this jump is the one that was followed.
      have hrow := Row.jump hop hx hy hv
      rw [← hxs] at hrow
      obtain ⟨e', he', hafter, -⟩ := (Row.leads_effect_iff hd).mpr hrow
      cases he.symm.trans he'
      rw [hins, ha, ← hafter]
      exact ⟨rfl, hback⟩
    · rintro ⟨-, hback⟩
      have hrow := (Row.leads_effect_iff hd).mp ⟨e, he, ha, rfl⟩
      obtain hforward | ⟨taken, x, y, v, hop, hxs, hx, hv, hy⟩ := hrow.forward_or_jump
      · omega
      · exact ⟨hins, hop, hxs, hx, hv, hy, hback⟩

theorem contains_of_completed (h : s.completed?.isSome) : s.memory.Contains s.ip := by
  obtain ⟨hnone, -⟩ | ⟨ins, e, -, -, hd, -, -⟩ := s.completed_cases
  · rw [hnone] at h
    cases h
  · obtain ⟨raw, hraw, -⟩ := bind_eq_ok_iff.mp hd
    exact Memory.contains_of_read hraw

theorem running_of_completed (h : s.completed?.isSome) : s.status = .running := by
  obtain ⟨hnone, -⟩ | ⟨ins, e, -, hs, -, -, -⟩ := s.completed_cases
  · rw [hnone] at h
    cases h
  · exact hs

theorem completed_of_running (h : s.advance.status = .running) : s.completed?.isSome := by
  by_cases hs : s.status = .running
  · -- A halt and both kinds of faults leave another status behind.
    unfold advance at h
    unfold completed?
    obtain ⟨fault, -, hn⟩ | ⟨-, hn⟩ | ⟨ins, fault, -, -, hn⟩ | ⟨ins, e, -, -, hn⟩ := next_cases hs
    all_goals rw [hn] at h ⊢
    · cases h
    · cases h
    · cases h
    · rfl
  · rw [advance_of_stopped hs] at h
    exact absurd h hs

theorem size_advance (s : State) : s.advance.memory.size = s.memory.size := by
  obtain ⟨-, status, ha⟩ | ⟨ins, e, -, -, -, -, ha⟩ := s.completed_cases
  · rw [ha]
  · rw [ha, size_apply]

structure Succeeds (s s' : State) : Prop where
  ip_eq : s'.ip = s.advance.ip
  status_eq : s'.status = s.advance.status

theorem Succeeds.completed {s' : State} (h : s.Succeeds s') (hc : s'.completed?.isSome) :
    s.completed?.isSome := by
  apply completed_of_running
  rw [← h.status_eq]
  exact running_of_completed hc

/-- The cycles lead to a state, one after the other, on a memory of this size. -/
structure Trail (size : Nat) (cycles : List State) (s : State) : Prop where
  size_eq : s.memory.size = size
  sizes : ∀ c ∈ cycles, c.memory.size = size
  chain : cycles.IsChain Succeeds
  last : ∀ c ∈ cycles.getLast?, Succeeds c s

theorem Trail.feed (h : s.Trail size cycles) (xs : List Int) : (s.feed xs).Trail size cycles := by
  refine ⟨h.size_eq, h.sizes, h.chain, fun c hc => ?_⟩
  obtain ⟨hip, hstatus⟩ := h.last c hc
  exact ⟨hip, hstatus⟩

theorem Trail.advance (h : s.Trail size cycles) : s.advance.Trail size (cycles ++ [s]) := by
  constructor
  · rw [size_advance, h.size_eq]
  · intro c hc
    rcases List.mem_append.mp hc with hc | hc
    · exact h.sizes c hc
    · rw [List.mem_singleton.mp hc, h.size_eq]
  · refine h.chain.append (.singleton s) fun c hc s' hs => ?_
    cases hs
    exact h.last c hc
  · intro c hc
    rw [List.getLast?_concat] at hc
    cases hc
    exact ⟨rfl, rfl⟩

theorem Trail.iterate (h : s.Trail size cycles) (n : Nat) :
    (State.advance^[n] s).Trail size (cycles ++ List.iterate State.advance s n) := by
  induction n generalizing s cycles with
  | zero => simpa using h
  | succ n ih =>
    have hnext := ih h.advance
    rw [List.append_assoc] at hnext
    exact hnext

def done (cycles : List State) : List State := cycles.filter (·.completed?.isSome)

theorem done_cons_of_completed (h : s.completed?.isSome) (rest : List State) :
    done (s :: rest) = s :: done rest := by
  simp [done, h]

theorem done_cons_of_not_completed (h : ¬ s.completed?.isSome) (rest : List State) :
    done (s :: rest) = done rest := by
  simp [done, h]

theorem done_eq_nil {first : State} {rest : List State} (h : (first :: rest).IsChain Succeeds)
    (hc : ¬ first.completed?.isSome) : done rest = [] := by
  induction rest generalizing first with
  | nil => rfl
  | cons second rest ih =>
    obtain ⟨hsecond, hrest⟩ := List.isChain_cons_cons.mp h
    have hstop := mt hsecond.completed hc
    rw [done_cons_of_not_completed hstop, ih hrest hstop]

theorem done_isPrefix (h : cycles.IsChain Succeeds) : done cycles <+: cycles := by
  induction cycles with
  | nil => exact List.prefix_rfl
  | cons first rest ih =>
    by_cases hc : first.completed?.isSome
    · rw [done_cons_of_completed hc, List.prefix_cons_inj]
      exact ih h.tail
    · rw [done_cons_of_not_completed hc, done_eq_nil h hc]
      exact List.nil_prefix

theorem room_of_forward {first : State} {rest : List State}
    (hchain : (first :: rest).IsChain Succeeds)
    (hsize : ∀ s ∈ first :: rest, s.memory.size = size)
    (hdone : ∀ s ∈ first :: rest, s.completed?.isSome)
    (hforward : ∀ s ∈ first :: rest, ¬ s.JumpsBack) :
    first.ip + (rest.length + 1 : Nat) ≤ size := by
  have hc := hdone first List.mem_cons_self
  induction rest generalizing first with
  | nil =>
    have hin := (contains_of_completed hc).2
    rw [hsize first List.mem_cons_self] at hin
    show first.ip + 1 ≤ size
    omega
  | cons second rest ih =>
    obtain ⟨hsecond, hrest⟩ := List.isChain_cons_cons.mp hchain
    have hroom := ih hrest (fun s hs => hsize s (List.mem_cons_of_mem _ hs))
      (fun s hs => hdone s (List.mem_cons_of_mem _ hs))
      (fun s hs => hforward s (List.mem_cons_of_mem _ hs))
      (hdone second (List.mem_cons_of_mem _ List.mem_cons_self))
    have hmove : ¬ first.advance.ip ≤ first.ip := fun hback =>
      hforward first List.mem_cons_self (jumpsBack_iff.mpr ⟨hc, hback⟩)
    rw [← hsecond.ip_eq] at hmove
    rw [List.length_cons]
    omega

theorem Trail.exists_jumpsBack (h : s.Trail size cycles) (hw : window <:+: done cycles)
    (hlen : size < window.length) : ∃ c ∈ window, c.JumpsBack := by
  by_contra hnone
  push Not at hnone
  have hin : window <:+: cycles := hw.trans (done_isPrefix h.chain).isInfix
  cases window with
  | nil => exact absurd hlen (Nat.not_lt_zero size)
  | cons first rest =>
    have hchain : (first :: rest).IsChain Succeeds := List.IsChain.infix h.chain hin
    have hsize : ∀ c ∈ first :: rest, c.memory.size = size := fun c hc =>
      h.sizes c (hin.subset hc)
    have hdone : ∀ c ∈ first :: rest, c.completed?.isSome := fun c hc =>
      (List.mem_filter.mp (hw.subset hc)).2
    have hroom := room_of_forward hchain hsize hdone hnone
    have hstart := (contains_of_completed (hdone first List.mem_cons_self)).1
    rw [List.length_cons] at hlen
    omega

end State

theorem History.trail {program : Memory} {inputs : List Int} {trace : Bool} {calls : List Call}
    {cycles : List State} {m : Machine}
    (h : History (Machine.start program inputs trace) calls cycles m) :
    m.toState.Trail program.size cycles := by
  induction h with
  | nil => exact ⟨rfl, by simp, .nil, by simp⟩
  | call before hc ih =>
    rw [hc.toState]
    exact (ih.feed _).iterate _

namespace Machine

theorem stopped_of_forward {program : Memory} {inputs : List Int} {trace : Bool}
    (h : ∀ k ≤ program.size,
      ¬ (State.advance^[k] (start program inputs trace).toState).JumpsBack) :
    (State.advance^[program.size + 1] (start program inputs trace).toState).status ≠ .running := by
  intro hrun
  -- A machine that has stopped does not go on, so all these cycles have completed an instruction.
  have hfresh : History (start program inputs trace) [] [] (start program inputs trace) := .nil
  have htrail := hfresh.trail.iterate (program.size + 1)
  have hall : ∀ c ∈ List.iterate State.advance (start program inputs trace).toState
      (program.size + 1), c.completed?.isSome := by
    intro c hc
    obtain ⟨k, hk, rfl⟩ := List.mem_iterate.mp hc
    apply State.completed_of_running
    by_contra hstop
    rw [← Function.iterate_succ_apply' State.advance] at hstop
    rw [State.iterate_of_stopped hstop hk] at hrun
    exact hstop hrun
  have hlong : program.size < (State.done ([] ++ List.iterate State.advance
      (start program inputs trace).toState (program.size + 1))).length := by
    rw [List.nil_append, State.done, List.filter_eq_self.mpr hall, List.length_iterate]
    exact Nat.lt_succ_self _
  obtain ⟨c, hc, hback⟩ := htrail.exists_jumpsBack (List.infix_refl _) hlong
  obtain ⟨k, hk, rfl⟩ := List.mem_iterate.mp (List.mem_of_mem_filter hc)
  exact h k (Nat.le_of_lt_succ hk) hback

/-- In every run, be it between calls or inside them, more completed instructions in a row than the
memory has cells include a jump back. A fresh machine that takes none within its first cycles, one
more than it has cells, has stopped after them, and a run to completion comes back from it. -/
theorem goes_on_by_jumping_back (program : Memory) (inputs : List Int) (trace : Bool) :
    (∀ calls cycles m, History (start program inputs trace) calls cycles m →
      ∀ (c : Call) (k : Nat) (window : List State),
        window <:+: State.done (cycles ++ List.iterate State.advance (m.toState.feed c.inputs) k) →
        program.size < window.length → ∃ s ∈ window, s.JumpsBack) ∧
    ((∀ k ≤ program.size,
        ¬ (State.advance^[k] (start program inputs trace).toState).JumpsBack) →
      ((start program inputs trace).nexts (program.size + 1)).1.status ≠ .running ∧
      ∀ dump fuel, program.size + 1 ≤ fuel →
        ∃ m, (start program inputs trace).runToCompletion fuel dump = some (m, m.answer dump) ∧
          m.status ≠ .running) := by
  refine ⟨?_, fun hforward => ?_⟩
  · intro calls cycles m h c k window hw hlen
    exact ((h.trail.feed c.inputs).iterate k).exists_jumpsBack hw hlen
  · have hstop := stopped_of_forward hforward
    refine ⟨?_, fun dump fuel hle => ?_⟩
    · show ((start program inputs trace).nexts (program.size + 1)).1.toState.status ≠ .running
      rw [toState_nexts]
      exact hstop
    · obtain ⟨m, hrun, hm⟩ := runToCompletion_of_stopped hstop hle dump
      refine ⟨m, hrun, ?_⟩
      show m.toState.status ≠ .running
      rw [hm]
      exact hstop

theorem goes_on_by_jumping_back_loop :
    (∃ s ∈ List.iterate State.advance (start (.ofList [1105, 1, 0]) [] false).toState 4,
      s.JumpsBack) ∧
    ((start (.ofList [1106, 0, 4, 99, 1101, 90, 9, 8, 0]) [] false).nexts 10).1.status ≠ .running ∧
    ∃ m, (start (.ofList [1106, 0, 4, 99, 1101, 90, 9, 8, 0]) [] false).runToCompletion 10 true =
      some (m, m.answer true) ∧ m.status ≠ .running := by
  have hforward : ∀ k ≤ 9, ¬ (State.advance^[k]
      (start (.ofList [1106, 0, 4, 99, 1101, 90, 9, 8, 0]) [] false).toState).JumpsBack := by
    simp only [State.jumpsBack_iff]
    decide +kernel
  have hdone : State.done ([] ++ List.iterate State.advance
      ((start (.ofList [1105, 1, 0]) [] false).toState.feed Call.next.inputs) 4) =
      List.iterate State.advance (start (.ofList [1105, 1, 0]) [] false).toState 4 := rfl
  have hloop := (goes_on_by_jumping_back (.ofList [1105, 1, 0]) [] false).1 [] [] _ .nil .next 4 _
    (List.infix_refl _)
  rw [hdone, List.length_iterate] at hloop
  obtain ⟨hstop, hrun⟩ :=
    (goes_on_by_jumping_back (.ofList [1106, 0, 4, 99, 1101, 90, 9, 8, 0]) [] false).2 hforward
  exact ⟨hloop (by decide), hstop, hrun true 10 (Nat.le_refl 10)⟩

end Machine

end Intcode
