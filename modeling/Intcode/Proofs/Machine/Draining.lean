import Intcode.Proofs.Machine.Driving

/-!
# Taking outputs away

Cycles add to the outputs and never look at them, so a driver may take them at any time. Only an
answer that lists the outputs, that of a completed run or of a run that has come to the end,
can tell whether some have been taken.
-/

namespace Intcode

namespace State

variable {s : State}

def restore (s : State) (taken : List Int) : State :=
  { s with outputs := taken.toArray ++ s.outputs }

def withoutOutputs (s : State) : State := { s with outputs := #[] }

theorem restore_nil (s : State) : s.restore [] = s := by
  simp [restore]

theorem toList_outputs_restore (s : State) (taken : List Int) :
    (s.restore taken).outputs.toList = taken ++ s.outputs.toList := by
  simp [restore]

theorem withoutOutputs_restore (s : State) (taken : List Int) :
    (s.restore taken).withoutOutputs = s.withoutOutputs := rfl

theorem restore_withoutOutputs (s : State) (taken : List Int) :
    s.withoutOutputs.restore (taken ++ s.outputs.toList) = s.restore taken := by
  simp [restore, withoutOutputs]

theorem apply_restore (s : State) (ins : Instruction) (e : Effect) (taken : List Int) :
    (s.restore taken).apply ins e = (s.apply ins e).restore taken := by
  cases e with
  | emit v => simp [apply, restore]
  | store | receive | jump | pass => rfl

theorem next_restore (s : State) (taken : List Int) :
    (s.restore taken).next = (s.advance.restore taken, s.next.2) := by
  unfold advance
  cases hs : s.status with
  | halted => rw [next_of_halted hs, next_of_halted (s := s.restore taken) hs]
  | faulted trap => rw [next_of_faulted hs, next_of_faulted (s := s.restore taken) hs]
  | running =>
    obtain ⟨fault, hd, hn⟩ | ⟨hd, hn⟩ | ⟨ins, fault, hd, he, hn⟩ | ⟨ins, e, hd, he, hn⟩ :=
      next_cases hs
    all_goals rw [hn]
    · exact next_of_decode_error (s := s.restore taken) hs hd
    · exact next_of_halt (s := s.restore taken) hs hd
    · exact next_of_effect_error (s := s.restore taken) hs hd he
    · rw [next_of_effect (s := s.restore taken) hs hd he, apply_restore]

end State

/-- Nothing but outputs distinguishes the machines: the second still has those that have been taken
from the first. -/
structure Restores (taken : List Int) (m m' : Machine) : Prop where
  toState : m'.toState = m.toState.restore taken

namespace Restores

variable {taken : List Int} {m m' : Machine}

theorem outputs (h : Restores taken m m') : m'.outputs.toList = taken ++ m.outputs.toList := by
  rw [h.toState, State.toList_outputs_restore]

theorem withoutOutputs (h : Restores taken m m') :
    m'.toState.withoutOutputs = m.toState.withoutOutputs := by
  rw [h.toState, State.withoutOutputs_restore]

theorem drain (h : Restores taken m m') : Restores (taken ++ m.outputs.toList) m.drain.1 m' := by
  constructor
  show m'.toState = m.toState.withoutOutputs.restore (taken ++ m.outputs.toList)
  rw [h.toState, State.restore_withoutOutputs]

end Restores

theorem lockstep_restores (taken : List Int) : Lockstep (Restores taken) where
  status {m m'} h := by
    rw [h.toState]
    rfl
  feed {m m'} h xs := by
    constructor
    simp only [Machine.feed, h.toState]
    rfl
  next {m m'} h := by
    constructor
    rw [Machine.toState_next, Machine.toState_next, h.toState, State.advance, State.next_restore]
  reply {m m'} h := by
    rw [Machine.reply_next, Machine.reply_next, h.toState, State.next_restore]

namespace Call

/-- What an answer to the call says apart from the outputs that it lists. -/
def blank : Call → Answer → Answer
  | runToCompletion false, .cells _ => .cells []
  | _, .pause (.halted memory _) => .pause (.halted memory [])
  | _, answer => answer

theorem blank_answer (c : Call) {taken : List Int} {m m' : Machine} (emitted : Option Int)
    (h : Restores taken m m') :
    c.blank (c.answer m' emitted) = c.blank (c.answer m emitted) := by
  have hmemory : m'.memory = m.memory := by rw [h.toState]; rfl
  cases c with
  | next => rfl
  | runToCompletion dump => cases dump <;> simp [answer, blank, Machine.result, hmemory]
  | runUntilOutput xs => cases emitted <;> simp [answer, blank, Machine.pauseOf, hmemory]

end Call

namespace Outcome

/-- What a call shows of a machine when its outputs are not looked at: the answer, or the trap that
was raised, and the state it has led to. -/
def seen? : Outcome → Option (Except Trap Answer × State)
  | answered c answer after => some (answer.map c.blank, after.withoutOutputs)
  | drained _ => none

def taken : Outcome → List Int
  | answered .. => []
  | drained values => values

@[simp] theorem seen?_answered (c : Call) (answer : Except Trap Answer) (after : State) :
    (answered c answer after).seen? = some (answer.map c.blank, after.withoutOutputs) := rfl

@[simp] theorem seen?_drained (values : List Int) : (drained values).seen? = none := rfl

@[simp] theorem taken_answered (c : Call) (answer : Except Trap Answer) (after : State) :
    (answered c answer after).taken = [] := rfl

@[simp] theorem taken_drained (values : List Int) : (drained values).taken = values := rfl

end Outcome

structure Undrained (before : List Int) (r r' : Machine × List Outcome) : Prop where
  seen : r'.2.filterMap Outcome.seen? = r.2.filterMap Outcome.seen?
  outputs : r'.1.outputs.toList = before ++ r.2.flatMap Outcome.taken ++ r.1.outputs.toList

namespace Undrained

variable {before values : List Int} {r r' : Machine × List Outcome}

theorem drained (h : Undrained (before ++ values) r r') :
    Undrained before (r.1, .drained values :: r.2) r' := by
  constructor
  · simpa [List.filterMap_cons] using h.seen
  · simpa using h.outputs

theorem answered {c : Call} {answer answer' : Except Trap Answer} {after after' : State}
    (h : Undrained before r r') (hanswer : answer'.map c.blank = answer.map c.blank)
    (hafter : after'.withoutOutputs = after.withoutOutputs) :
    Undrained before (r.1, .answered c answer after :: r.2)
      (r'.1, .answered c answer' after' :: r'.2) := by
  constructor
  · simpa [hanswer, hafter] using h.seen
  · simpa using h.outputs

end Undrained

namespace Machine

variable {fuel : Nat} {m m' : Machine}

theorem drive_restores {before : List Int} (moves : List Move) (h : Restores before m m') :
    Option.Rel (Undrained before) (m.drive fuel moves)
      (m'.drive fuel (moves.filter Move.isCall)) := by
  -- A drain moves the outputs at hand over to `before`, so the induction is for any `before`.
  induction moves generalizing m m' before with
  | nil => exact .some ⟨rfl, by simpa using h.outputs⟩
  | cons move rest ih =>
    cases move with
    | drain =>
      have hrest := (ih h.drain).map (g := id) Undrained.drained
      rw [Option.map_id] at hrest
      exact hrest
    | call c =>
      simp only [List.filter_cons, Move.isCall, if_true, drive]
      refine ((lockstep_restores before).perform h c c.blank_answer).bind fun ⟨hm, hanswer, _⟩ => ?_
      exact (ih hm).map fun hlast => hlast.answered hanswer hm.withoutOutputs

/-- Drains put anywhere between calls change nothing about what the calls answer, apart from the
outputs they list, nor about the states they lead to, the outputs apart. What has been taken,
followed by what is left, is what a machine has that is driven by the same calls and never drained. -/
theorem drive_drained (fuel : Nat) (moves : List Move) (m : Machine) :
    (m.drive fuel moves).map (fun r => (r.2.filterMap Outcome.seen?,
        r.2.flatMap Outcome.taken ++ r.1.outputs.toList)) =
      (m.drive fuel (moves.filter Move.isCall)).map (fun r => (r.2.filterMap Outcome.seen?,
        r.1.outputs.toList)) := by
  have hm : Restores [] m m := ⟨m.toState.restore_nil.symm⟩
  refine (drive_restores moves hm).map_eq fun h => ?_
  rw [h.seen, h.outputs]
  simp

example : ((start (.ofList [104, 5, 104, 7, 99]) [] false).drive 3
      [.call (.runUntilOutput []), .drain, .call (.runToCompletion false)]).map
    (fun r => (r.2.flatMap Outcome.taken, r.1.outputs.toList)) = some ([5], [7]) := rfl

end Machine

end Intcode
