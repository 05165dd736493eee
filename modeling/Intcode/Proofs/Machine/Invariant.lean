import Intcode.Proofs.Machine.Effect
import Intcode.Proofs.Machine.Session

/-!
# Reachable states

Programs rewrite themselves and jump anywhere, but every state that calls can lead to is sound: the
memory has kept its size, a halted machine stands on a cell that asks to halt, and the fault of a
faulted machine can still be seen from its memory and its pointer.
-/

namespace Intcode

def Status.trap? : Status → Option Trap
  | .faulted trap => some trap
  | .running | .halted => none

/-- The memory gives the reason for a fault met at `ip`. -/
def Fault.BorneOut (m : Memory) (ip : Int) : Fault → Prop
  | .outOfBounds a => a < 0 ∨ m.size ≤ a
  | .invalidInstruction raw => m.Contains ip ∧ m.toList[ip.toNat]? = some raw
  | .inputStarved => ∃ ins, m.decode ip = .ok (some ins) ∧ ins.operation = .input

namespace Memory

variable {m : Memory} {ip : Int} {fault : Fault}

theorem Lacks.borneOut (h : m.Lacks fault) (ip : Int) : fault.BorneOut m ip := by
  obtain ⟨a, rfl, ha⟩ := h
  unfold Contains at ha
  show a < 0 ∨ m.size ≤ a
  omega

theorem borneOut_of_decode (h : m.decode ip = .error fault) : fault.BorneOut m ip := by
  obtain hlacks | ⟨raw, rfl, hraw⟩ := decode_eq_error h
  · exact hlacks.borneOut ip
  · exact ⟨contains_of_read hraw, getElem?_of_read hraw⟩

theorem borneOut_of_effect {ins : Instruction} {pending : List Int}
    (hd : m.decode ip = .ok (some ins)) (he : ins.effect m pending = .error fault) :
    fault.BorneOut m ip := by
  obtain hlacks | ⟨rfl, hop, -⟩ := Instruction.effect_eq_error he
  · exact hlacks.borneOut ip
  · exact ⟨ins, hd, hop⟩

end Memory

namespace State

variable {s : State} {size : Nat}

structure Sound (size : Nat) (s : State) : Prop where
  size_eq : s.memory.size = size
  halted : s.status = .halted → s.memory.Contains s.ip ∧
    ∃ raw, s.memory.toList[s.ip.toNat]? = some raw ∧ 0 ≤ raw ∧ raw % 100 = 99
  faulted : ∀ trap, s.status.trap? = some trap →
    trap.ip = s.ip ∧ trap.fault.BorneOut s.memory s.ip

theorem sound_of_running (hsize : s.memory.size = size) (h : s.status = .running) :
    s.Sound size := by
  constructor
  · exact hsize
  · intro hh
    rw [h] at hh
    cases hh
  · intro trap ht
    rw [h] at ht
    cases ht

theorem sound_trap {fault : Fault} (hsize : s.memory.size = size)
    (h : fault.BorneOut s.memory s.ip) (decoded : Option Instruction) :
    (s.trap decoded fault).1.Sound size := by
  constructor
  · exact hsize
  · intro hh
    cases hh
  · intro trap ht
    cases ht
    exact ⟨rfl, h⟩

theorem size_apply (ins : Instruction) (e : Effect) :
    (s.apply ins e).memory.size = s.memory.size := by
  cases e <;> simp [apply]

theorem Sound.feed (h : s.Sound size) (xs : List Int) : (s.feed xs).Sound size :=
  ⟨h.size_eq, h.halted, h.faulted⟩

theorem Sound.advance (h : s.Sound size) : s.advance.Sound size := by
  by_cases hs : s.status = .running
  · -- Stopping changes the status alone, so the memory still shows what the cycle met.
    unfold State.advance
    obtain ⟨fault, hd, hn⟩ | ⟨hd, hn⟩ | ⟨ins, fault, hd, he, hn⟩ | ⟨ins, e, hd, he, hn⟩ :=
      next_cases hs
    all_goals rw [hn]
    · exact sound_trap h.size_eq (Memory.borneOut_of_decode hd) _
    · obtain ⟨raw, hraw, hcode⟩ := Memory.decode_eq_none_iff.mp hd
      constructor
      · exact h.size_eq
      · intro _
        exact ⟨Memory.contains_of_read hraw, raw, Memory.getElem?_of_read hraw, hcode⟩
      · intro trap ht
        cases ht
    · exact sound_trap h.size_eq (Memory.borneOut_of_effect hd he) _
    · exact sound_of_running ((size_apply ins e).trans h.size_eq) ((status_apply ins e).trans hs)
  · rw [advance_of_stopped hs]
    exact h

end State

namespace Machine

variable {program : Memory} {inputs : List Int} {m m' : Machine} {pausing dump trace : Bool}
  {fuel n : Nat} {reply : Except Trap (Option Int)} {cells : List Int}

theorem Proceeds.sound_end (h : (start program inputs trace).Proceeds pausing n m reply) :
    m.toState.Sound program.size := by
  rw [h.toState]
  exact Function.Iterate.rec _ (State.sound_of_running rfl rfl) (fun _ hs => hs.advance) n

theorem halted_of_runToCompletion (h : m.runToCompletion fuel dump = some (m', .ok cells)) :
    (∃ n, m.Proceeds false n m' (.ok none)) ∧ cells = m'.result dump := by
  obtain ⟨n, -, reply, hp, hr⟩ := runToCompletion_eq_some_iff.mp h
  rcases reply with trap | _ | v
  · cases hr
  · cases hr
    exact ⟨⟨n, hp⟩, rfl⟩
  · exact absurd hp.status hp.stopped

theorem execute_eq_ok (h : execute fuel program inputs dump trace = some (m, .ok cells)) :
    ∃ m₀ n, (start program inputs trace).Proceeds false n m₀ (.ok none) ∧
      m.toState = m₀.toState ∧ cells = m₀.result dump := by
  rw [execute_eq_map] at h
  obtain ⟨⟨m₀, result⟩, hrun, he⟩ := Option.map_eq_some_iff.mp h
  obtain ⟨hm, rfl⟩ := Prod.mk.inj he
  obtain ⟨⟨n, hp⟩, hcells⟩ := halted_of_runToCompletion hrun
  refine ⟨m₀, n, hp, ?_, hcells⟩
  rw [← hm]
  cases trace <;> rfl

end Machine

/-- Every state that calls lead to is sound, and a fault is on record in the faulted ones alone. -/
theorem Session.sound {admissible : Machine → Call → Prop} {program : Memory} {inputs : List Int}
    {trace : Bool} {calls : List Call} {m : Machine}
    (h : Session admissible (Machine.start program inputs trace) calls m) :
    m.toState.Sound program.size ∧ (m.status.trap?.isSome ↔ m.status.name = "FAULTED") := by
  constructor
  · refine h.induction_toState ?_ ?_ ?_
    · exact State.sound_of_running rfl rfl
    · intro s xs hs
      exact hs.feed xs
    · intro s hs
      exact hs.advance
  · cases m.status <;> simp [Status.trap?, Status.name]

theorem Session.sound_rewritten :
    ∃ m, Session (fun _ _ => True) (Machine.start (.ofList [1101, 1, 2, 4, 0, 5]) [] false)
        [.next, .runToCompletion true] m ∧
      m.memory.toList = [1101, 1, 2, 4, 3, 5] ∧ m.status = .faulted ⟨.inputStarved, 4⟩ ∧
      m.toState.Sound 6 ∧ (m.status.trap?.isSome ↔ m.status.name = "FAULTED") := by
  let rewritten : Machine := { memory := ⟨#[1101, 1, 2, 4, 3, 5]⟩, ip := 4 }
  let starved : Machine := { rewritten with
    status := .faulted ⟨.inputStarved, 4⟩
    journal := #[.trapped ⟨.inputStarved, 4⟩, .snapshot 4 (.faulted ⟨.inputStarved, 4⟩) [] []] }
  have first : Session (fun _ _ => True) (Machine.start (.ofList [1101, 1, 2, 4, 0, 5]) [] false)
      [.next] rewritten :=
    .call (.nil _) trivial (show Call.perform 0 _ _ = some (rewritten, _) from rfl)
  have second : Session (fun _ _ => True) (Machine.start (.ofList [1101, 1, 2, 4, 0, 5]) [] false)
      [.next, .runToCompletion true] starved :=
    .call first trivial (show Call.perform 1 _ _ = some (starved, _) from rfl)
  exact ⟨starved, second, rfl, rfl, second.sound⟩

end Intcode
