import Intcode.Proofs.Machine.Effect
import Intcode.Proofs.Machine.Session
import Mathlib.Data.List.Iterate

/-!
# Histories

A session with a record of its instruction cycles, each given by the state it started from. What
input instructions have stored and what output instructions have printed is read off the memory
before and after each cycle. Main statement: between calls and inside them, what has been stored
and what is still pending are together what was queued, and the outputs are what was printed.
-/

namespace Intcode

namespace State

variable {s : State}

/-- What a completed input instruction has left in its target cell. -/
def stored? (s : State) : Option Int := do
  let ins ← s.completed?
  if ins.operation = .input then
    (s.advance.memory.read (← ins.resultAddress?)).toOption
  else
    none

/-- The operand of a completed output instruction, as it was before the cycle. -/
def printed? (s : State) : Option Int := do
  let ins ← s.completed?
  if ins.operation = .output then
    ((← ins.operands.toList.head?).load s.memory).toOption
  else
    none

theorem stored?_of_ne_input {ins : Instruction} (h : s.completed? = some ins)
    (hop : ins.operation ≠ .input) : s.stored? = none := by
  simp [stored?, h, hop]

theorem printed?_of_ne_output {ins : Instruction} (h : s.completed? = some ins)
    (hop : ins.operation ≠ .output) : s.printed? = none := by
  simp [printed?, h, hop]

theorem pending_advance (s : State) : s.pending = s.stored?.toList ++ s.advance.pending := by
  obtain ⟨hc, status, ha⟩ | ⟨ins, e, hc, -, -, he, ha⟩ := s.completed_cases
  · simp [stored?, hc, ha]
  · obtain ⟨a, v, rfl, -, -, hop, -⟩ | ⟨a, v, rest, rfl, hm, ht, hop, hp⟩ |
      ⟨x, v, rfl, hop, -, -⟩ | ⟨⟨a, rfl⟩ | rfl, hop, -⟩ := Instruction.effect_cases he
    · simp [stored?_of_ne_input hc hop, ha, apply]
    · -- The cell that is read here is the one that has just been written.
      have hread := Memory.read_set hm v
      simp [stored?, hc, hop, ht, ha, apply, hread, hp, Except.toOption]
    · have hne : ins.operation ≠ .input := by rw [hop]; decide
      simp [stored?_of_ne_input hc hne, ha, apply]
    · simp [stored?_of_ne_input hc hop, ha, apply]
    · simp [stored?_of_ne_input hc hop, ha, apply]

theorem outputs_eq_printed (s : State) :
    s.advance.outputs.toList = s.outputs.toList ++ s.printed?.toList := by
  obtain ⟨hc, status, ha⟩ | ⟨ins, e, hc, -, -, he, ha⟩ := s.completed_cases
  · simp [printed?, hc, ha]
  · obtain ⟨a, v, rfl, -, -, -, hop⟩ | ⟨a, v, rest, rfl, -, -, hop, -⟩ |
      ⟨x, v, rfl, hop, hx, hv⟩ | ⟨⟨a, rfl⟩ | rfl, -, hop⟩ := Instruction.effect_cases he
    · simp [printed?_of_ne_output hc hop, ha, apply]
    · have hne : ins.operation ≠ .output := by rw [hop]; decide
      simp [printed?_of_ne_output hc hne, ha, apply]
    · simp [printed?, hc, hop, hx, ha, apply, hv, Except.toOption]
    · simp [printed?_of_ne_output hc hop, ha, apply]
    · simp [printed?_of_ne_output hc hop, ha, apply]

/-- The books of the channel: `cycles` have been made, and `queued` is all that was ever queued. -/
structure Balanced (queued : List Int) (cycles : List State) (s : State) : Prop where
  stored : cycles.filterMap stored? ++ s.pending = queued
  printed : s.outputs.toList = cycles.filterMap printed?

variable {queued : List Int} {cycles : List State}

theorem Balanced.feed (h : s.Balanced queued cycles) (xs : List Int) :
    (s.feed xs).Balanced (queued ++ xs) cycles := by
  constructor
  · rw [← h.stored, List.append_assoc]
    rfl
  · exact h.printed

theorem Balanced.advance (h : s.Balanced queued cycles) :
    s.advance.Balanced queued (cycles ++ [s]) := by
  constructor
  · have hs := h.stored
    rw [s.pending_advance] at hs
    cases hv : s.stored? <;> simpa [hv] using hs
  · rw [s.outputs_eq_printed, h.printed]
    cases hv : s.printed? <;> simp [hv]

theorem Balanced.iterate (h : s.Balanced queued cycles) (n : Nat) :
    (State.advance^[n] s).Balanced queued (cycles ++ List.iterate State.advance s n) := by
  induction n generalizing s cycles with
  | zero => simpa using h
  | succ n ih =>
    have hnext := ih h.advance
    rw [List.append_assoc] at hnext
    exact hnext

end State

namespace Call

variable {c : Call} {m m' : Machine} {fuel : Nat} {answer : Except Trap Answer}

def announced : Except Trap Answer → List Int
  | .ok (.value (some v)) | .ok (.pause (.output v)) => [v]
  | .ok (.value none) | .ok (.pause (.halted ..)) | .ok (.cells _) | .error _ => []

theorem outputs_perform (h : c.perform fuel m = some (m', answer))
    (hc : ∀ dump, c ≠ .runToCompletion dump) :
    m'.outputs.toList = m.outputs.toList ++ announced answer := by
  cases c with
  | next =>
    cases h
    rw [Machine.toState_next, State.outputs_advance, ← Machine.reply_next]
    rcases m.next.2 with trap | _ | v <;> rfl
  | runToCompletion dump => exact absurd rfl (hc dump)
  | runUntilOutput xs =>
    obtain ⟨⟨m₁, result⟩, hr, he⟩ := Option.map_eq_some_iff.mp h
    cases he
    obtain ⟨n, -, reply, hp, rfl⟩ := Machine.runUntilOutput_eq_some_iff.mp hr
    rw [hp.outputs]
    rcases reply with trap | _ | v <;> rfl

end Call

/-- Calls that have been made on a machine, with the states that their cycles started from. -/
inductive History (origin : Machine) : List Call → List State → Machine → Prop
  | nil : History origin [] [] origin
  | call {calls : List Call} {cycles : List State} {m m' : Machine} {c : Call} {n : Nat}
      (before : History origin calls cycles m) (hc : Call.Returns m c n m') :
      History origin (calls ++ [c])
        (cycles ++ List.iterate State.advance (m.toState.feed c.inputs) n) m'

variable {admissible : Machine → Call → Prop} {origin m : Machine} {calls : List Call}
  {cycles : List State} {program : Memory} {inputs : List Int} {trace : Bool}

theorem Session.exists_history (h : Session admissible origin calls m) :
    ∃ cycles, History origin calls cycles m := by
  induction h with
  | nil => exact ⟨[], .nil⟩
  | call before ha hc ih =>
    obtain ⟨cycles, hcycles⟩ := ih
    obtain ⟨n, hn⟩ := Call.exists_returns hc
    exact ⟨_, .call hcycles hn⟩

theorem History.balanced (h : History (Machine.start program inputs trace) calls cycles m) :
    m.toState.Balanced (inputs ++ fed calls) cycles := by
  induction h with
  | nil => exact ⟨by simp [Machine.start, fed], rfl⟩
  | @call calls cycles m m' c n before hc ih =>
    rw [hc.toState, fed_append, ← List.append_assoc]
    exact (ih.feed c.inputs).iterate n

/-- However a machine is driven, the channel neither loses, repeats nor reorders a value, be it
between calls or after any number of cycles of a further call. A single step, and a run that stops
at outputs, emits just what its answer reports. -/
theorem Session.channel_balanced
    (h : Session admissible (Machine.start program inputs trace) calls m) :
    (∃ cycles, History (Machine.start program inputs trace) calls cycles m) ∧
    (∀ cycles, History (Machine.start program inputs trace) calls cycles m →
      m.toState.Balanced (inputs ++ fed calls) cycles ∧
      ∀ (c : Call) (k : Nat),
        (State.advance^[k] (m.toState.feed c.inputs)).Balanced (inputs ++ fed (calls ++ [c]))
          (cycles ++ List.iterate State.advance (m.toState.feed c.inputs) k)) ∧
    ∀ (c : Call) (fuel : Nat) (m₁ m₂ : Machine) (answer : Except Trap Answer),
      c.perform fuel m₁ = some (m₂, answer) → (∀ dump, c ≠ .runToCompletion dump) →
      m₂.outputs.toList = m₁.outputs.toList ++ Call.announced answer := by
  refine ⟨h.exists_history, ?_, ?_⟩
  · intro cycles hcycles
    refine ⟨hcycles.balanced, fun c k => ?_⟩
    rw [fed_append, ← List.append_assoc]
    exact (hcycles.balanced.feed c.inputs).iterate k
  · intro c fuel m₁ m₂ answer hc hne
    exact Call.outputs_perform hc hne

theorem Session.channel_balanced_starved :
    ∃ m cycles,
      Session (fun _ _ => True) (Machine.start (.ofList [3, 0, 4, 0, 3, 0, 99]) [] false)
        [.runUntilOutput [0], .runToCompletion false, .runUntilOutput [7]] m ∧
      History (Machine.start (.ofList [3, 0, 4, 0, 3, 0, 99]) [] false)
        [.runUntilOutput [0], .runToCompletion false, .runUntilOutput [7]] cycles m ∧
      m.status = .faulted ⟨.inputStarved, 4⟩ ∧
      cycles.filterMap State.stored? ++ [7] = [0, 7] ∧ [0] = cycles.filterMap State.printed? ∧
      ∀ fuel m' answer, Call.perform fuel m .next = some (m', answer) →
        m'.outputs.toList = [0] ++ Call.announced answer := by
  let echoed : Machine := { memory := ⟨#[0, 0, 4, 0, 3, 0, 99]⟩, ip := 4, outputs := #[0] }
  let starved : Machine := { echoed with
    status := .faulted ⟨.inputStarved, 4⟩
    journal := #[.trapped ⟨.inputStarved, 4⟩, .snapshot 4 (.faulted ⟨.inputStarved, 4⟩) [] [0]] }
  have first : Session (fun _ _ => True) (Machine.start (.ofList [3, 0, 4, 0, 3, 0, 99]) [] false)
      [.runUntilOutput [0]] echoed :=
    .call (.nil _) trivial (show Call.perform 2 _ _ = some (echoed, _) from rfl)
  have second : Session (fun _ _ => True) (Machine.start (.ofList [3, 0, 4, 0, 3, 0, 99]) [] false)
      [.runUntilOutput [0], .runToCompletion false] starved :=
    .call first trivial (show Call.perform 1 _ _ = some (starved, _) from rfl)
  have third : Session (fun _ _ => True) (Machine.start (.ofList [3, 0, 4, 0, 3, 0, 99]) [] false)
      [.runUntilOutput [0], .runToCompletion false, .runUntilOutput [7]] (starved.feed [7]) :=
    .call second trivial (show Call.perform 0 _ _ = some (starved.feed [7], _) from rfl)
  obtain ⟨⟨cycles, hcycles⟩, hbalanced, hannounced⟩ := third.channel_balanced
  have hbooks := (hbalanced cycles hcycles).1
  refine ⟨starved.feed [7], cycles, third, hcycles, rfl, hbooks.stored, hbooks.printed, ?_⟩
  intro fuel m' answer hnext
  exact hannounced .next fuel _ m' answer hnext (by simp)

end Intcode
