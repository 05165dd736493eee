import Intcode.Proofs.Machine.Run

/-!
# Sessions

A machine driven from outside, one call after another. Main statement: feeding a machine bit by
bit, stepping it and suspending it at outputs leads to the state that one uninterrupted run
reaches when it has all the inputs from the start.
-/

namespace Intcode

open Machine (start)

inductive Call where
  | next
  | runToCompletion (dump : Bool)
  | runUntilOutput (inputs : List Int)
deriving DecidableEq

inductive Answer where
  | value (emitted : Option Int)
  | cells (contents : List Int)
  | pause (pause : Pause)
deriving DecidableEq

namespace Call

def perform (fuel : Nat) (m : Machine) : Call → Option (Machine × Except Trap Answer)
  | next => some (m.next.1, m.next.2.map .value)
  | runToCompletion dump => (m.runToCompletion fuel dump).map fun r => (r.1, r.2.map .cells)
  | runUntilOutput xs => (m.runUntilOutput fuel xs).map fun r => (r.1, r.2.map .pause)

def inputs : Call → List Int
  | next | runToCompletion _ => []
  | runUntilOutput xs => xs

end Call

/-- Calls made one after another, whatever they answer, with a condition on each call and the
machine it is made on. -/
inductive Session (admissible : Machine → Call → Prop) : Machine → List Call → Machine → Prop
  | nil (m : Machine) : Session admissible m [] m
  | call {m m₁ m₂ : Machine} {calls : List Call} {c : Call} {fuel : Nat}
      {answer : Except Trap Answer} (before : Session admissible m calls m₁)
      (ha : admissible m₁ c) (hc : c.perform fuel m₁ = some (m₂, answer)) :
      Session admissible m (calls ++ [c]) m₂

/-- No inputs are queued on a machine that has stopped with a fault. -/
def Timely (m : Machine) (c : Call) : Prop := (∃ trap, m.status = .faulted trap) → c.inputs = []

def fed (calls : List Call) : List Int := calls.flatMap Call.inputs

theorem State.feed_nil (s : State) : s.feed [] = s := by
  simp [State.feed]

theorem State.feed_append (s : State) (xs ys : List Int) :
    s.feed (xs ++ ys) = (s.feed xs).feed ys := by
  simp [State.feed]

namespace Call

/-- A call made on `m` comes back, after a number of cycles. -/
inductive Returns (m : Machine) : Call → Nat → Machine → Prop
  | next : Returns m .next 1 m.next.1
  | runToCompletion {dump : Bool} {n : Nat} {m' : Machine} {reply : Except Trap (Option Int)}
      (h : m.Proceeds false n m' reply) : Returns m (.runToCompletion dump) n m'
  | runUntilOutput {xs : List Int} {n : Nat} {m' : Machine} {reply : Except Trap (Option Int)}
      (h : (m.feed xs).Proceeds true n m' reply) : Returns m (.runUntilOutput xs) n m'

variable {c : Call} {m m' : Machine} {fuel n : Nat} {answer : Except Trap Answer}

theorem exists_returns (h : c.perform fuel m = some (m', answer)) : ∃ n, Returns m c n m' := by
  cases c with
  | next =>
    cases h
    exact ⟨1, .next⟩
  | runToCompletion dump =>
    obtain ⟨⟨m₁, result⟩, hr, he⟩ := Option.map_eq_some_iff.mp h
    cases he
    obtain ⟨n, -, reply, hp, -⟩ := Machine.runToCompletion_eq_some_iff.mp hr
    exact ⟨n, .runToCompletion hp⟩
  | runUntilOutput xs =>
    obtain ⟨⟨m₁, result⟩, hr, he⟩ := Option.map_eq_some_iff.mp h
    cases he
    obtain ⟨n, -, reply, hp, -⟩ := Machine.runUntilOutput_eq_some_iff.mp hr
    exact ⟨n, .runUntilOutput hp⟩

theorem Returns.toState (h : Returns m c n m') :
    m'.toState = State.advance^[n] (m.toState.feed c.inputs) := by
  cases h with
  | next =>
    rw [inputs, State.feed_nil]
    exact m.toState_next
  | runToCompletion hp =>
    rw [inputs, State.feed_nil]
    exact hp.toState
  | runUntilOutput hp => exact hp.toState

theorem perform_toState (h : c.perform fuel m = some (m', answer)) :
    ∃ n, m'.toState = State.advance^[n] (m.toState.feed c.inputs) := by
  obtain ⟨n, hn⟩ := exists_returns h
  exact ⟨n, hn.toState⟩

end Call

theorem fed_append (calls : List Call) (c : Call) : fed (calls ++ [c]) = fed calls ++ c.inputs := by
  simp [fed]

theorem Session.induction_toState {admissible : Machine → Call → Prop} {P : State → Prop}
    {origin m : Machine} {calls : List Call} (h : Session admissible origin calls m)
    (horigin : P origin.toState) (hfeed : ∀ s xs, P s → P (s.feed xs))
    (hadvance : ∀ s, P s → P s.advance) : P m.toState := by
  induction h with
  | nil => exact horigin
  | call before ha hc ih =>
    obtain ⟨n, hn⟩ := Call.perform_toState hc
    rw [hn]
    exact Function.Iterate.rec P (hfeed _ _ ih) hadvance n

theorem Session.iterate_start {program : Memory} {inputs : List Int} {trace : Bool}
    {calls : List Call} {m : Machine}
    (h : Session Timely (start program inputs trace) calls m) (fresh : Bool) (later : List Int)
    (hlater : (∃ trap, m.status = .faulted trap) → later = []) :
    ∃ n, State.advance^[n] (start program (inputs ++ fed calls ++ later) fresh).toState =
      m.toState.feed later := by
  induction h generalizing later with
  | nil => exact ⟨0, by simp [fed, start, State.feed]⟩
  | @call m₁ m₂ calls c fuel answer before ha hc ih =>
    obtain ⟨k, hk⟩ := Call.perform_toState hc
    have hnow : (∃ trap, m₁.status = .faulted trap) → c.inputs ++ later = [] := by
      rintro ⟨trap, hs⟩
      have hin := ha ⟨trap, hs⟩
      rw [hin, State.feed_nil] at hk
      have hstop : m₁.toState.status ≠ .running := by simp [hs]
      rw [Function.iterate_fixed (State.advance_of_stopped hstop)] at hk
      rw [hin, hlater ⟨trap, by rw [hk]; exact hs⟩]
      rfl
    obtain ⟨n, hn⟩ := ih (c.inputs ++ later) hnow
    refine ⟨k + n, ?_⟩
    have hfed : inputs ++ fed (calls ++ [c]) ++ later =
        inputs ++ fed calls ++ (c.inputs ++ later) := by simp [fed]
    rw [hfed, Function.iterate_add_apply, hn, State.feed_append, hk]
    by_cases hs : ∃ trap, m₂.status = .faulted trap
    · rw [hlater hs, State.feed_nil, State.feed_nil]
    · apply State.iterate_feed
      rw [← hk]
      rintro ⟨ip, hip⟩
      exact hs ⟨_, hip⟩

/-- When a session ends on a halted or faulted machine, a fresh machine with everything that was
fed, in the order of the calls, runs to its end and ends in the same state. -/
theorem Session.eager_run {program : Memory} {inputs : List Int} {trace : Bool}
    {calls : List Call} {m : Machine}
    (h : Session Timely (start program inputs trace) calls m) (hstop : m.status ≠ .running)
    (fresh dump : Bool) :
    ∃ n, ∀ fuel, n ≤ fuel → ∃ m',
      (start program (inputs ++ fed calls) fresh).runToCompletion fuel dump =
        some (m', m.answer dump) ∧ m'.toState = m.toState := by
  obtain ⟨n, hn⟩ := h.iterate_start fresh [] (fun _ => rfl)
  rw [List.append_nil, State.feed_nil] at hn
  refine ⟨n, fun fuel hle => ?_⟩
  rw [← hn] at hstop
  obtain ⟨m', hrun, hm⟩ := Machine.runToCompletion_of_stopped hstop hle dump
  rw [hn] at hm
  refine ⟨m', ?_, hm⟩
  rw [hrun]
  simp only [Machine.answer, Machine.result, hm]

theorem Session.eager_run_starved :
    ∃ m, Session Timely (start (.ofList [3, 0, 4, 0, 3, 0, 99]) [] false)
        [.runUntilOutput [7], .next, .runToCompletion true] m ∧
      m.status = .faulted ⟨.inputStarved, 4⟩ ∧
      ∃ n, ∀ fuel, n ≤ fuel → ∃ m',
        (start (.ofList [3, 0, 4, 0, 3, 0, 99]) [7] true).runToCompletion fuel false =
          some (m', .error ⟨.inputStarved, 4⟩) ∧ m'.toState = m.toState := by
  let echoed : Machine := { memory := ⟨#[7, 0, 4, 0, 3, 0, 99]⟩, ip := 4, outputs := #[7] }
  let starved : Machine := { echoed with
    status := .faulted ⟨.inputStarved, 4⟩
    journal := #[.trapped ⟨.inputStarved, 4⟩, .snapshot 4 (.faulted ⟨.inputStarved, 4⟩) [] [7]] }
  have first : Session Timely (start (.ofList [3, 0, 4, 0, 3, 0, 99]) [] false)
      [.runUntilOutput [7]] echoed :=
    .call (.nil _) (by rintro ⟨_, h⟩; cases h) (show Call.perform 2 _ _ = some (echoed, _) from rfl)
  have second : Session Timely (start (.ofList [3, 0, 4, 0, 3, 0, 99]) [] false)
      [.runUntilOutput [7], .next] starved :=
    .call first (fun _ => rfl) (show Call.perform 1 _ _ = some (starved, _) from rfl)
  have third : Session Timely (start (.ofList [3, 0, 4, 0, 3, 0, 99]) [] false)
      [.runUntilOutput [7], .next, .runToCompletion true] starved :=
    .call second (fun _ => rfl) (show Call.perform 1 _ _ = some (starved, _) from rfl)
  exact ⟨starved, third, rfl, third.eager_run (by decide) true false⟩

end Intcode
