import Intcode.Proofs.Amplifier.Relay

/-!
# Rings as relays

The loop over a ring passes through reached relays and through nothing else. Main statement: a
ring delivers every signal faithfully, has no answer exactly when its first amplifier halts in
silence, and otherwise answers with the newest signal when an amplifier halts.
-/

namespace Intcode.Amplifier

variable {program : Memory} {phases : List Int} {signal : Int} {fuel turns : Nat} {m m' : Machine}
  {others : List Machine} {done : Bool} {log : Log}

theorem turn_of_output {v : Int} (h : m.runUntilOutput fuel [signal] = some (m', .ok (.output v))) :
    turn fuel (turns + 1) (m :: others) signal done log =
      turn fuel turns (others ++ [m'.takeJournal.1]) v true (log ++ m'.journal) := by
  simp only [turn, h]
  rfl

theorem turn_of_halted {memory outputs : List Int}
    (h : m.runUntilOutput fuel [signal] = some (m', .ok (.halted memory outputs))) :
    turn fuel (turns + 1) (m :: others) signal done log =
      some (if done then .ok signal else .error .halted, log ++ m'.journal) := by
  simp only [turn, h]
  rfl

theorem turn_of_error {trap : Trap}
    (h : m.runUntilOutput fuel [signal] = some (m', .error trap)) :
    turn fuel (turns + 1) (m :: others) signal done log =
      some (.error (.trapped trap), log ++ m'.journal) := by
  simp only [turn, h]
  rfl

theorem turn_of_none (h : m.runUntilOutput fuel [signal] = none) :
    turn fuel (turns + 1) (m :: others) signal done log = none := by
  simp only [turn, h]

theorem turn_nil : turn fuel turns [] signal done log = none := by
  cases turns <;> rfl

theorem turn_mono {fuel' turns' : Nat} {result : Except Failure Int × Log}
    (h : turn fuel turns others signal done log = some result) (hf : fuel ≤ fuel')
    (ht : turns ≤ turns') : turn fuel' turns' others signal done log = some result := by
  induction turns generalizing others signal done log turns' with
  | zero => cases h
  | succ turns ih =>
    obtain ⟨turns', rfl⟩ : ∃ k, turns' = k + 1 := ⟨turns' - 1, by omega⟩
    cases others with
    | nil => rw [turn_nil] at h; cases h
    | cons m others =>
      cases hrun : m.runUntilOutput fuel [signal] with
      | none => rw [turn_of_none hrun] at h; cases h
      | some outcome =>
        have hmore := Machine.runUntilOutput_mono hrun hf
        obtain ⟨m', trap | ⟨v⟩ | ⟨memory, outputs⟩⟩ := outcome
        · rw [turn_of_error hrun] at h
          rw [turn_of_error hmore, h]
        · rw [turn_of_output hrun] at h
          rw [turn_of_output hmore]
          exact ih h (by omega)
        · rw [turn_of_halted hrun] at h
          rw [turn_of_halted hmore, h]

namespace Relay

variable {r : Relay} {x : Station}

def machines (r : Relay) : List Machine := (r.stations.rotate r.emitted.length).map Station.machine

def call (fuel : Nat) (r : Relay) : Option (Machine × Except Trap Pause) :=
  r.stations[r.current]?.bind fun x => x.machine.runUntilOutput fuel [r.signal]

theorem machines_start : (start program phases signal).machines = ringOf program phases := by
  simp [machines, start, ringOf, Function.comp_def]

theorem length_emitted_pass {n : Nat} {v : Int} :
    (r.pass x m n v).emitted.length = r.emitted.length + 1 := by
  simp [pass]

theorem isEmpty_emitted_pass {n : Nat} {v : Int} : (r.pass x m n v).emitted.isEmpty = false := by
  simp [pass]

theorem machines_pass (hx : r.stations[r.current]? = some x) :
    ∃ rest, r.machines = x.machine :: rest ∧
      ∀ m n v, (r.pass x m n v).machines = rest ++ [m.takeJournal.1] := by
  obtain ⟨hlt, hget⟩ := List.getElem?_eq_some_iff.mp hx
  have hdrop : r.stations.drop r.current = x :: r.stations.drop (r.current + 1) := by
    rw [List.drop_eq_getElem_cons hlt, hget]
  refine ⟨(r.stations.drop (r.current + 1) ++ r.stations.take r.current).map Station.machine,
    ?_, ?_⟩
  · rw [machines, List.rotate_eq_drop_append_take_mod]
    change (r.stations.drop r.current ++ r.stations.take r.current).map _ = _
    rw [hdrop]
    rfl
  · intro m n v
    have hset : (r.pass x m n v).stations.rotate r.emitted.length =
        x.after r.signal m n :: (r.stations.drop (r.current + 1) ++ r.stations.take r.current) := by
      rw [List.rotate_eq_drop_append_take_mod, length_stations_pass]
      change (r.stations.set r.current _).drop r.current ++
        (r.stations.set r.current _).take r.current = _
      rw [List.drop_set, List.take_set, if_neg (Nat.lt_irrefl _), hdrop, Nat.sub_self,
        List.set_eq_of_length_le (List.length_take_le _ _)]
      rfl
    rw [machines]
    rw [length_emitted_pass, ← List.rotate_rotate, hset, List.rotate_cons_succ, List.rotate_zero]
    simp [Station.after]

theorem Faithful.exists_current (h : r.Faithful program phases signal) (hp : phases ≠ []) :
    ∃ x, r.stations[r.current]? = some x := by
  have hpos : 0 < r.stations.length := by
    rw [h.size]
    exact List.length_pos_iff.mpr hp
  exact ⟨_, List.getElem?_eq_getElem (Nat.mod_lt _ hpos)⟩

theorem call_eq (hx : r.stations[r.current]? = some x) :
    r.call fuel = x.machine.runUntilOutput fuel [r.signal] := by
  rw [call, hx]
  rfl

/-- The loop comes by this relay and goes on from there. -/
def Visited (program : Memory) (phases : List Int) (signal : Int) (fuel : Nat) (r : Relay) : Prop :=
  ∀ log, ∃ log', ∀ turns,
    turn fuel (turns + r.emitted.length) (ringOf program phases) signal false log =
      turn fuel turns r.machines r.signal (!r.emitted.isEmpty) log'

theorem visited_start : (start program phases signal).Visited program phases signal fuel := by
  intro log
  refine ⟨log, fun turns => ?_⟩
  rw [machines_start]
  rfl

theorem Visited.pass {n : Nat} {v : Int} (h : r.Visited program phases signal fuel)
    (hx : r.stations[r.current]? = some x)
    (hrun : x.machine.runUntilOutput fuel [r.signal] = some (m, .ok (.output v))) :
    (r.pass x m n v).Visited program phases signal fuel := by
  intro log
  obtain ⟨rest, hring, hnext⟩ := machines_pass hx
  obtain ⟨log', hturn⟩ := h log
  refine ⟨log' ++ m.journal, fun turns => ?_⟩
  have hlater := hturn (turns + 1)
  rw [hring, turn_of_output hrun, ← hnext m n v] at hlater
  have hcount : turns + (r.pass x m n v).emitted.length = turns + 1 + r.emitted.length := by
    rw [length_emitted_pass]
    omega
  rw [hcount, hlater, isEmpty_emitted_pass]
  rfl

theorem Reached.visited (h : Reached program phases signal r) :
    ∃ least, ∀ fuel, least ≤ fuel → r.Visited program phases signal fuel := by
  induction h with
  | start => exact ⟨0, fun fuel _ => visited_start⟩
  | @pass r x m n used v before hx hcall hcycles ih =>
    obtain ⟨least, hleast⟩ := ih
    refine ⟨max least used, fun fuel hle => ?_⟩
    have hbefore := hleast fuel (Nat.le_trans (Nat.le_max_left _ _) hle)
    exact hbefore.pass hx
      (Machine.runUntilOutput_mono hcall (Nat.le_trans (Nat.le_max_right _ _) hle))

theorem Reached.exists_pass {v : Int} (h : Reached program phases signal r)
    (hx : r.stations[r.current]? = some x)
    (hcall : x.machine.runUntilOutput fuel [r.signal] = some (m, .ok (.output v))) :
    ∃ n, Reached program phases signal (r.pass x m n v) := by
  obtain ⟨n, -, hcycles⟩ := Machine.proceeds_of_output hcall
  exact ⟨n, .pass h hx hcall hcycles⟩

theorem visited_or_stopped (program : Memory) (phases : List Int) (signal : Int) (fuel k : Nat) :
    (∃ r, Reached program phases signal r ∧ r.emitted.length < k ∧
      ∀ m v, r.call fuel ≠ some (m, .ok (.output v))) ∨
    ∃ r, Reached program phases signal r ∧ r.emitted.length = k ∧
      r.Visited program phases signal fuel := by
  induction k with
  | zero => exact Or.inr ⟨start program phases signal, .start, rfl, visited_start⟩
  | succ k ih =>
    obtain ⟨r, hr, hlt, hstop⟩ | ⟨r, hr, hlen, hvisited⟩ := ih
    · exact Or.inl ⟨r, hr, by omega, hstop⟩
    · by_cases hout : ∃ m v, r.call fuel = some (m, .ok (.output v))
      · obtain ⟨m, v, hcall⟩ := hout
        obtain ⟨x, hx, hrun⟩ := Option.bind_eq_some_iff.mp hcall
        obtain ⟨n, hpass⟩ := hr.exists_pass hx hrun
        refine Or.inr ⟨r.pass x m n v, hpass, ?_, hvisited.pass hx hrun⟩
        rw [length_emitted_pass, hlen]
      · exact Or.inl ⟨r, hr, by omega, fun m v hc => hout ⟨m, v, hc⟩⟩

theorem Reached.of_turn {answer : Except Failure Int} {log' : Log}
    (hr : Reached program phases signal r) (hp : phases ≠ [])
    (h : turn fuel turns r.machines r.signal (!r.emitted.isEmpty) log = some (answer, log')) :
    ∃ r', Reached program phases signal r' ∧
      ((∃ m trap, r'.call fuel = some (m, .error trap) ∧ answer = .error (.trapped trap)) ∨
        ∃ m memory outputs, r'.call fuel = some (m, .ok (.halted memory outputs)) ∧
          answer = if r'.emitted = [] then .error .halted else .ok r'.signal) := by
  induction turns generalizing r log with
  | zero => cases h
  | succ turns ih =>
    obtain ⟨x, hx⟩ := hr.faithful.exists_current hp
    obtain ⟨rest, hring, hnext⟩ := machines_pass hx
    rw [hring] at h
    cases hcall : x.machine.runUntilOutput fuel [r.signal] with
    | none => rw [turn_of_none hcall] at h; cases h
    | some outcome =>
      obtain ⟨m, trap | ⟨v⟩ | ⟨memory, outputs⟩⟩ := outcome
      · rw [turn_of_error hcall] at h
        cases h
        exact ⟨r, hr, Or.inl ⟨m, trap, (call_eq hx).trans hcall, rfl⟩⟩
      · obtain ⟨n, hpass⟩ := hr.exists_pass hx hcall
        rw [turn_of_output hcall, ← hnext m n v] at h
        refine @ih (log ++ m.journal) _ hpass ?_
        rw [isEmpty_emitted_pass]
        exact h
      · rw [turn_of_halted hcall] at h
        cases h
        refine ⟨r, hr, Or.inr ⟨m, memory, outputs, (call_eq hx).trans hcall, ?_⟩⟩
        cases r.emitted <;> rfl

/-- The machine whose turn it is halts before it emits anything. -/
def Halts (r : Relay) : Prop :=
  ∃ fuel m memory outputs, r.call fuel = some (m, .ok (.halted memory outputs))

end Relay

open Relay (Reached)

/-- The loop over a ring of amplifiers comes to an end with this answer. -/
def Answers (program : Memory) (phases : List Int) (signal : Int)
    (answer : Except Failure Int) : Prop :=
  ∃ least, ∀ fuel, least ≤ fuel →
    ∃ log, (Amplifier.ring fuel program phases signal).perform = some (answer, log)

theorem answers_of_perform {answer : Except Failure Int}
    (h : (Amplifier.ring fuel program phases signal).perform = some (answer, log)) :
    Answers program phases signal answer :=
  ⟨fuel, fun _ hle => ⟨log, turn_mono h hle hle⟩⟩

theorem answers_of_halts {r : Relay} (hr : Reached program phases signal r) (hh : r.Halts) :
    Answers program phases signal (if r.emitted = [] then .error .halted else .ok r.signal) := by
  obtain ⟨used, m, memory, outputs, hcall⟩ := hh
  obtain ⟨x, hx, hrun⟩ := Option.bind_eq_some_iff.mp hcall
  obtain ⟨least, hleast⟩ := hr.visited
  obtain ⟨rest, hring, -⟩ := Relay.machines_pass hx
  let fuel := max least used + 1 + r.emitted.length
  obtain ⟨log', hvisited⟩ := hleast fuel (by omega) #[]
  have hturn := hvisited (max least used + 1)
  have hmore := Machine.runUntilOutput_mono hrun (show used ≤ fuel by omega)
  rw [hring, turn_of_halted hmore] at hturn
  have hperform : (Amplifier.ring fuel program phases signal).perform =
      some (if r.emitted = [] then .error .halted else .ok r.signal, log' ++ m.journal) := by
    refine hturn.trans ?_
    cases r.emitted <;> rfl
  exact answers_of_perform hperform

theorem reached_of_answers {answer : Except Failure Int} (hp : phases ≠ [])
    (h : Answers program phases signal answer) :
    ∃ r, Reached program phases signal r ∧
      ((∃ trap, answer = .error (.trapped trap)) ∨
        r.Halts ∧ answer = if r.emitted = [] then .error .halted else .ok r.signal) := by
  obtain ⟨fuel, hleast⟩ := h
  obtain ⟨log, hturn⟩ := hleast fuel (Nat.le_refl _)
  have hstart : turn fuel fuel (Relay.start program phases signal).machines
      (Relay.start program phases signal).signal
      (!(Relay.start program phases signal).emitted.isEmpty) #[] = some (answer, log) := by
    rw [Relay.machines_start]
    exact hturn
  obtain ⟨r, hr, ⟨_, trap, -, he⟩ | ⟨m, memory, outputs, hc, he⟩⟩ :=
    Relay.Reached.of_turn .start hp hstart
  · exact ⟨r, hr, Or.inl ⟨trap, he⟩⟩
  · exact ⟨r, hr, Or.inr ⟨⟨fuel, m, memory, outputs, hc⟩, he⟩⟩

theorem halts_of_silent (hp : phases ≠ []) {n : Nat}
    (hs : (State.advance^[n]
      (Machine.start program [phases.head hp, signal] false).toState).status = .halted)
    (ho : (State.advance^[n]
      (Machine.start program [phases.head hp, signal] false).toState).outputs = #[]) :
    (Relay.start program phases signal).Halts := by
  obtain ⟨k, -, m, ⟨hrun, -⟩ | ⟨v, rest, -, -, hout⟩⟩ := Machine.proceeds_of_halting hs
  · cases phases with
    | nil => exact absurd rfl hp
    | cons phase phases =>
      have hfed : ((Machine.start program [phase] false).feed [signal]).Proceeds true k m
          (.ok none) := hrun
      exact ⟨k, m, _, _, hfed.runUntilOutput (Nat.le_refl k)⟩
  · rw [ho] at hout
    cases hout

theorem silent_of_halts (hp : phases ≠ []) (h : (Relay.start program phases signal).Halts) :
    ∃ n, (State.advance^[n]
        (Machine.start program [phases.head hp, signal] false).toState).status = .halted ∧
      (State.advance^[n]
        (Machine.start program [phases.head hp, signal] false).toState).outputs = #[] := by
  obtain ⟨fuel, m, memory, outputs, hcall⟩ := h
  cases phases with
  | nil => exact absurd rfl hp
  | cons phase phases =>
    have hrun : (Machine.start program [phase] false).runUntilOutput fuel [signal] =
        some (m, .ok (.halted memory outputs)) := hcall
    obtain ⟨n, -, hpro⟩ := Machine.proceeds_of_halted hrun
    have hstate := hpro.toState
    refine ⟨n, ?_, ?_⟩
    · exact hstate ▸ hpro.status
    · have hout := hpro.outputs
      rw [hstate] at hout
      exact Array.toList_inj.mp hout

theorem Relay.Reached.eq_start {r : Relay} (h : Reached program phases signal r)
    (he : r.emitted = []) : r = Relay.start program phases signal := by
  cases h with
  | start => rfl
  | pass => simp [Relay.pass] at he

/-- The loop comes by the reached relays and by nothing else, and each of them is faithful. It ends
without a signal exactly when the first amplifier, given its phase and the signal, halts in silence;
it ends with a signal exactly when, later on, some amplifier halts, and then the signal is the last
one emitted. -/
theorem ring_delivers (program : Memory) (phases : List Int) (signal : Int) (hp : phases ≠ []) :
    (∀ r, Reached program phases signal r → r.Faithful program phases signal ∧
      ∃ least, ∀ fuel, least ≤ fuel → r.Visited program phases signal fuel) ∧
    (∀ fuel k,
      (∃ r, Reached program phases signal r ∧ r.emitted.length < k ∧
        ∀ m v, r.call fuel ≠ some (m, .ok (.output v))) ∨
      ∃ r, Reached program phases signal r ∧ r.emitted.length = k ∧
        r.Visited program phases signal fuel) ∧
    (Answers program phases signal (.error .halted) ↔
      ∃ n, (State.advance^[n]
          (Machine.start program [phases.head hp, signal] false).toState).status = .halted ∧
        (State.advance^[n]
          (Machine.start program [phases.head hp, signal] false).toState).outputs = #[]) ∧
    ∀ v, Answers program phases signal (.ok v) ↔
      ∃ r, Reached program phases signal r ∧ r.emitted ≠ [] ∧ r.Halts ∧ r.signal = v := by
  refine ⟨fun r hr => ⟨hr.faithful, hr.visited⟩,
    Relay.visited_or_stopped program phases signal, ⟨?_, ?_⟩, fun v => ⟨?_, ?_⟩⟩
  · intro h
    obtain ⟨r, hr, ⟨trap, he⟩ | ⟨hh, he⟩⟩ := reached_of_answers hp h
    · cases he
    · by_cases hem : r.emitted = []
      · rw [hr.eq_start hem] at hh
        exact silent_of_halts hp hh
      · rw [if_neg hem] at he
        cases he
  · rintro ⟨n, hs, ho⟩
    exact answers_of_halts .start (halts_of_silent hp hs ho)
  · intro h
    obtain ⟨r, hr, ⟨trap, he⟩ | ⟨hh, he⟩⟩ := reached_of_answers hp h
    · cases he
    · by_cases hem : r.emitted = []
      · rw [if_pos hem] at he
        cases he
      · rw [if_neg hem] at he
        cases he
        exact ⟨r, hr, hem, hh, rfl⟩
  · rintro ⟨r, hr, hem, hh, rfl⟩
    have h := answers_of_halts hr hh
    rwa [if_neg hem] at h

def twiceIncrement (first : Int) : Memory :=
  .ofList [first, 0, 3, 0, 101, 1, 0, 0, 4, 0, 3, 0, 101, 1, 0, 0, 4, 0, 99]

theorem ring_delivers_twice_round :
    (∃ r, Reached (twiceIncrement 3) [5, 6] 7 r ∧ r.emitted = [8, 9, 10, 11] ∧
      r.Faithful (twiceIncrement 3) [5, 6] 7) ∧
    Answers (twiceIncrement 3) [5, 6] 7 (.ok 11) ∧
    Answers (.ofList [3, 0, 3, 0, 99]) [5, 6] 7 (.error .halted) := by
  have hcall₁ : (Machine.start (twiceIncrement 3) [5] false).runUntilOutput 4 [7] =
      some ({ memory := twiceIncrement 8, ip := 10, outputs := #[8] }, .ok (.output 8)) := by
    decide +kernel
  have hcall₂ : (Machine.start (twiceIncrement 3) [6] false).runUntilOutput 4 [8] =
      some ({ memory := twiceIncrement 9, ip := 10, outputs := #[9] }, .ok (.output 9)) := by
    decide +kernel
  have hcall₃ : Machine.runUntilOutput 4 [9]
      { memory := twiceIncrement 8, ip := 10, outputs := #[8] } =
      some ({ memory := twiceIncrement 10, ip := 18, outputs := #[8, 10] }, .ok (.output 10)) := by
    decide +kernel
  have hcall₄ : Machine.runUntilOutput 4 [10]
      { memory := twiceIncrement 9, ip := 10, outputs := #[9] } =
      some ({ memory := twiceIncrement 11, ip := 18, outputs := #[9, 11] }, .ok (.output 11)) := by
    decide +kernel
  obtain ⟨m, memory, outputs, hcall₅⟩ : ∃ m memory outputs, Machine.runUntilOutput 1 [11]
      { memory := twiceIncrement 10, ip := 18, outputs := #[8, 10] } =
      some (m, .ok (.halted memory outputs)) := ⟨_, _, _, rfl⟩
  obtain ⟨hfaithful, -, -, hanswers⟩ := ring_delivers (twiceIncrement 3) [5, 6] 7 (by decide)
  have hr₀ : Reached (twiceIncrement 3) [5, 6] 7 (.start (twiceIncrement 3) [5, 6] 7) := .start
  obtain ⟨n₁, hr₁⟩ := hr₀.exists_pass rfl hcall₁
  obtain ⟨n₂, hr₂⟩ := hr₁.exists_pass rfl hcall₂
  -- Now it is the turn of those again that have emitted.
  obtain ⟨n₃, hr₃⟩ := hr₂.exists_pass (x := ⟨_, [7], n₁⟩)
    (by simp [Relay.pass, Relay.start, Relay.current, Station.after, Machine.takeJournal]) hcall₃
  obtain ⟨n₄, hr₄⟩ := hr₃.exists_pass (x := ⟨_, [8], n₂⟩)
    (by simp [Relay.pass, Relay.start, Relay.current, Station.after, Machine.takeJournal]) hcall₄
  refine ⟨⟨_, hr₄, rfl, (hfaithful _ hr₄).1⟩, ?_, ?_⟩
  · refine (hanswers 11).mpr ⟨_, hr₄, List.cons_ne_nil _ _, ⟨1, m, memory, outputs, ?_⟩, rfl⟩
    refine (Relay.call_eq (x := ⟨_, [7, 9], n₁ + n₃⟩) ?_).trans hcall₅
    simp [Relay.pass, Relay.start, Relay.current, Station.after, Machine.takeJournal]
  · exact (ring_delivers (.ofList [3, 0, 3, 0, 99]) [5, 6] 7 (by decide)).2.2.1.mpr ⟨3, rfl, rfl⟩

end Intcode.Amplifier
