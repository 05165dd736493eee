import Intcode.Proofs.Machine.Invariant

/-!
# Final states

A machine that has halted or met a fault is announced once and then stays as it is. Further calls
come back at once with what the state says. They leave no entry in the journal, and nothing but the
queue of pending inputs changes.
-/

namespace Intcode

def shown (events : List Event) : List (Level × String) :=
  (events.filter (·.level ≠ .debug)).map fun e => (e.level, e.text)

theorem shown_append (xs ys : List Event) : shown (xs ++ ys) = shown xs ++ shown ys := by
  simp [shown]

theorem shown_executing (decoded : Option Instruction) (trace : Bool) (ip : Int) :
    shown (if trace then decoded.toList.map (.executing ip) else []) = [] := by
  cases trace <;> cases decoded <;> rfl

namespace State

variable {s : State}

def announcement (s : State) : List (Level × String) :=
  match s.status with
  | .running => []
  | .halted => [(.info, "Machine halted at IP:" ++ toString s.ip)]
  | .faulted trap =>
    [(.error, "Machine fault at IP:" ++ toString s.ip ++ ": " ++ trap.fault.message)]

theorem announcement_of_running (h : s.status = .running) : s.announcement = [] := by
  simp only [announcement, h]

theorem announcement_trap (decoded : Option Instruction) (fault : Fault) (trace : Bool) :
    (s.trap decoded fault).1.announcement =
      shown ((s.trap decoded fault).2.events trace s.ip (s.trap decoded fault).1) := by
  have hquiet := shown_executing decoded trace s.ip
  simp only [trap, Step.events, shown_append, hquiet, List.nil_append]
  rfl

theorem announcement_advance (s : State) (trace : Bool) :
    s.advance.announcement = s.announcement ++ shown (s.next.2.events trace s.ip s.advance) := by
  unfold advance
  cases hs : s.status with
  | halted => rw [next_of_halted hs]; exact (List.append_nil _).symm
  | faulted trap => rw [next_of_faulted hs]; exact (List.append_nil _).symm
  | running =>
    rw [announcement_of_running hs, List.nil_append]
    obtain ⟨fault, -, hn⟩ | ⟨-, hn⟩ | ⟨ins, fault, -, -, hn⟩ | ⟨ins, e, -, -, hn⟩ := next_cases hs
    all_goals rw [hn]
    · exact announcement_trap none fault trace
    · rfl
    · exact announcement_trap (some ins) fault trace
    · rw [announcement_of_running ((status_apply ins e).trans hs)]
      exact (shown_executing (some ins) trace s.ip).symm

end State

namespace Machine

variable {m m' : Machine} {pausing : Bool} {n : Nat} {reply : Except Trap (Option Int)}

def ending (m : Machine) : Call → Answer
  | .next => .value none
  | .runToCompletion dump => .cells (m.result dump)
  | .runUntilOutput _ => .pause (.halted m.memory.toList m.outputs.toList)

def verdict (m : Machine) (c : Call) : Except Trap Answer :=
  match m.status with
  | .faulted trap => .error trap
  | .running | .halted => .ok (m.ending c)

theorem feed_nil (m : Machine) : m.feed [] = m := by
  simp [feed, State.feed_nil]

theorem feed_append (m : Machine) (xs ys : List Int) : m.feed (xs ++ ys) = (m.feed xs).feed ys := by
  simp [feed, State.feed_append]

theorem journal_next (m : Machine) :
    m.next.1.journal.toList =
      m.journal.toList ++ m.toState.next.2.events m.trace m.ip m.toState.advance := by
  cases m
  simp [next, State.advance]

theorem proceeds_of_stopped (h : m.status = statusAfter reply) (hstop : m.status ≠ .running)
    (pausing : Bool) : m.Proceeds pausing 0 m reply := by
  rcases reply with trap | _ | v
  · exact .faulted h
  · exact .halted h
  · exact absurd h hstop

theorem exists_statusAfter (m : Machine) : ∃ reply, m.status = statusAfter reply := by
  cases m.status with
  | running => exact ⟨.ok (some 0), rfl⟩
  | halted => exact ⟨.ok none, rfl⟩
  | faulted trap => exact ⟨.error trap, rfl⟩

theorem announcement_next (h : shown m.journal.toList = m.announcement) :
    shown m.next.1.journal.toList = m.next.1.announcement := by
  rw [journal_next, shown_append, h, toState_next]
  exact (State.announcement_advance m.toState m.trace).symm

theorem Proceeds.kept {P : Machine → Prop} (h : m.Proceeds pausing n m' reply) (hm : P m)
    (hnext : ∀ m, P m → P m.next.1) : P m' := by
  induction h with
  | halted | faulted => exact hm
  | trapped | paused => exact hnext _ hm
  | next hs hn hp rest ih => exact ih (hnext _ hm)

end Machine

namespace Call

variable {c : Call} {m m' : Machine} {fuel n : Nat}

theorem Returns.kept {P : Machine → Prop} (h : Returns m c n m') (hm : P (m.feed c.inputs))
    (hnext : ∀ m, P m → P m.next.1) : P m' := by
  cases h with
  | next =>
    rw [inputs, Machine.feed_nil] at hm
    exact hnext m hm
  | runToCompletion hp =>
    rw [inputs, Machine.feed_nil] at hm
    exact hp.kept hm hnext
  | runUntilOutput hp => exact hp.kept hm hnext

end Call

variable {admissible : Machine → Call → Prop} {origin m : Machine} {calls : List Call}
  {program : Memory} {inputs : List Int} {trace : Bool}

theorem Session.induction_machine {P : Machine → Prop} (h : Session admissible origin calls m)
    (horigin : P origin) (hfeed : ∀ m xs, P m → P (m.feed xs)) (hnext : ∀ m, P m → P m.next.1) :
    P m := by
  induction h with
  | nil => exact horigin
  | call before ha hc ih =>
    obtain ⟨n, hn⟩ := Call.exists_returns hc
    exact hn.kept (hfeed _ _ ih) hnext

theorem Session.announced (h : Session admissible (Machine.start program inputs trace) calls m) :
    shown m.journal.toList = m.announcement := by
  refine h.induction_machine (P := fun m => shown m.journal.toList = m.announcement) rfl ?_ ?_
  · intro m xs hm
    exact hm
  · intro m hm
    exact Machine.announcement_next hm

end Intcode
