import Intcode.Proofs.Machine.Driving
import Intcode.Proofs.Machine.History

/-!
# Tracing

A traced machine does what an untraced one does. Their logs differ by one record for every cycle
that starts on a running machine with an instruction that decodes; it stands before whatever the
cycle itself reports.
-/

namespace Intcode

open Machine (start)

def Event.record (e : Event) : Level × String := (e.level, e.text)

namespace State

variable {s : State}

def entries (trace : Bool) (s : State) : List Event :=
  s.next.2.events trace s.ip s.advance

end State

namespace Machine

variable {m m' : Machine} {pausing : Bool} {n : Nat} {reply : Except Trap (Option Int)}

def log (m : Machine) : List (Level × String) := m.journal.toList.map Event.record

theorem trace_next (m : Machine) : m.next.1.trace = m.trace := by
  cases m; rfl

theorem Proceeds.journal (h : m.Proceeds pausing n m' reply) :
    m'.journal.toList = m.journal.toList ++
      (List.iterate State.advance m.toState n).flatMap (State.entries m.trace) := by
  induction h with
  | halted | faulted => simp
  | trapped | paused =>
    rw [journal_next]
    simp [State.entries]
  | next hs hn hp rest ih =>
    rw [ih, journal_next, trace_next, toState_next]
    simp [State.entries]

end Machine

namespace Call

variable {c : Call} {m m' : Machine} {n : Nat}

theorem Returns.trace (h : Returns m c n m') : m'.trace = m.trace :=
  h.kept (P := fun m₁ => m₁.trace = m.trace) rfl fun m₁ hm => (Machine.trace_next m₁).trans hm

theorem Returns.journal (h : Returns m c n m') :
    m'.journal.toList = m.journal.toList ++
      (List.iterate State.advance (m.toState.feed c.inputs) n).flatMap
        (State.entries m.trace) := by
  cases h with
  | next =>
    rw [Machine.journal_next, inputs, State.feed_nil]
    simp [State.entries]
  | runToCompletion hp =>
    rw [inputs, State.feed_nil]
    exact hp.journal
  | runUntilOutput hp => exact hp.journal

end Call

namespace History

variable {origin m : Machine} {calls : List Call} {cycles : List State} {program : Memory}
  {inputs : List Int}

theorem trace (h : History origin calls cycles m) : m.trace = origin.trace := by
  induction h with
  | nil => rfl
  | call before hc ih => rw [hc.trace, ih]

theorem journal (h : History origin calls cycles m) :
    m.journal.toList = origin.journal.toList ++ cycles.flatMap (State.entries origin.trace) := by
  induction h with
  | nil => simp
  | call before hc ih => rw [hc.journal, ih, before.trace, List.flatMap_append, List.append_assoc]

end History

structure SameState (m m' : Machine) : Prop where
  toState : m'.toState = m.toState

theorem lockstep_sameState : Lockstep SameState where
  status h := by rw [h.toState]
  feed h xs := ⟨by simp only [Machine.feed, h.toState]⟩
  next h := ⟨by rw [Machine.toState_next, Machine.toState_next, h.toState]⟩
  reply h := by rw [Machine.reply_next, Machine.reply_next, h.toState]

namespace Machine

variable {origin origin' m m' : Machine} {before : List Call} {cycles : List State} {fuel : Nat}

end Machine

-- The instruction that faults is traced, ahead of its fault.
example : ((start (.ofList [104, 5, 3, 0]) [] true).runToCompletion 3 false).map (fun r => r.1.log) =
    some [(.debug, "@0: OUT #5"), (.debug, "@2: INP [0]"),
      (.error, "Machine fault at IP:2: " ++ Fault.inputStarved.message),
      (.debug, "IP:2 FAULTED IN:[] OUT:[5]")] := by decide +kernel

end Intcode
