import Intcode.Machine.Run
import Intcode.Proofs.Machine.Cycle

/-!
# Runs as derivations

`Machine.Proceeds` says how a run comes back to its caller and after how many cycles, without a
bound on their number. The bounded runs find exactly its derivations.
-/

namespace Intcode

def statusAfter : Except Trap (Option Int) → Status
  | .error trap => .faulted trap
  | .ok none => .halted
  | .ok (some _) => .running

namespace Machine

variable {m m' : Machine} {pausing dump : Bool} {fuel n : Nat}
  {reply : Except Trap (Option Int)} {xs : List Int}

theorem toState_next (m : Machine) : m.next.1.toState = m.toState.advance := by
  cases m; rfl

theorem reply_next (m : Machine) : m.next.2 = m.toState.next.2.reply := by
  cases m; rfl

def nexts : Nat → Machine → Machine × List (Except Trap (Option Int))
  | 0, m => (m, [])
  | n + 1, m => ((m.next.1.nexts n).1, m.next.2 :: (m.next.1.nexts n).2)

theorem toState_nexts (n : Nat) (m : Machine) :
    (m.nexts n).1.toState = State.advance^[n] m.toState := by
  induction n generalizing m with
  | zero => rfl
  | succ n ih => rw [nexts, ih, toState_next, Function.iterate_succ_apply]

theorem nexts_lockstep {f : State → State} (hm : m'.toState = f m.toState)
    (h : ∀ k < n, (f (State.advance^[k] m.toState)).next =
      (f (State.advance^[k + 1] m.toState), (State.advance^[k] m.toState).next.2)) :
    (m'.nexts n).1.toState = f (m.nexts n).1.toState ∧ (m'.nexts n).2 = (m.nexts n).2 := by
  induction n generalizing m m' with
  | zero => exact ⟨hm, rfl⟩
  | succ n ih =>
    have hfirst := h 0 (Nat.succ_pos n)
    have hnext : m'.next.1.toState = f m.next.1.toState := by
      rw [toState_next, toState_next, hm]
      exact congrArg Prod.fst hfirst
    have hreply : m'.next.2 = m.next.2 := by
      rw [reply_next, reply_next, hm]
      exact congrArg (fun r => r.2.reply) hfirst
    obtain ⟨hstate, hreplies⟩ := ih hnext fun k hk => by
      rw [toState_next]
      exact h (k + 1) (Nat.succ_lt_succ hk)
    exact ⟨hstate, congrArg₂ List.cons hreply hreplies⟩

inductive Proceeds (pausing : Bool) :
    Machine → Nat → Machine → Except Trap (Option Int) → Prop
  | halted {m : Machine} (h : m.status = .halted) : Proceeds pausing m 0 m (.ok none)
  | faulted {m : Machine} {trap : Trap} (h : m.status = .faulted trap) :
      Proceeds pausing m 0 m (.error trap)
  | trapped {m : Machine} {trap : Trap} (h : m.status = .running)
      (hn : m.next.2 = .error trap) : Proceeds pausing m 1 m.next.1 (.error trap)
  | paused {m : Machine} {v : Int} (h : m.status = .running) (hp : pausing = true)
      (hn : m.next.2 = .ok (some v)) : Proceeds pausing m 1 m.next.1 (.ok (some v))
  | next {m m' : Machine} {n : Nat} {reply : Except Trap (Option Int)} {value : Option Int}
      (h : m.status = .running) (hn : m.next.2 = .ok value) (hp : pausing = true → value = none)
      (rest : Proceeds pausing m.next.1 n m' reply) : Proceeds pausing m (n + 1) m' reply

theorem proceed_of_halted (h : m.status = .halted) :
    m.proceed pausing fuel = some (m, .ok none) := by
  cases fuel <;> simp only [proceed, h]

theorem proceed_of_faulted {trap : Trap} (h : m.status = .faulted trap) :
    m.proceed pausing fuel = some (m, .error trap) := by
  cases fuel <;> simp only [proceed, h]

theorem proceed_zero (h : m.status = .running) : m.proceed pausing 0 = none := by
  simp only [proceed, h]

theorem proceed_succ (h : m.status = .running) :
    m.proceed pausing (fuel + 1) =
      match m.next.2 with
      | .error trap => some (m.next.1, .error trap)
      | .ok none => m.next.1.proceed pausing fuel
      | .ok (some v) =>
        if pausing then some (m.next.1, .ok (some v)) else m.next.1.proceed pausing fuel := by
  rw [proceed]
  simp only [h]
  rcases m.next with ⟨m₁, trap | value | v⟩ <;> rfl

theorem proceeds_of_proceed (h : m.proceed pausing fuel = some (m', reply)) :
    ∃ n ≤ fuel, m.Proceeds pausing n m' reply := by
  induction fuel generalizing m with
  | zero =>
    cases hs : m.status with
    | running => rw [proceed_zero hs] at h; cases h
    | halted => rw [proceed_of_halted hs] at h; cases h; exact ⟨0, Nat.zero_le _, .halted hs⟩
    | faulted trap => rw [proceed_of_faulted hs] at h; cases h; exact ⟨0, Nat.zero_le _, .faulted hs⟩
  | succ fuel ih =>
    cases hs : m.status with
    | halted => rw [proceed_of_halted hs] at h; cases h; exact ⟨0, Nat.zero_le _, .halted hs⟩
    | faulted trap =>
      rw [proceed_of_faulted hs] at h
      cases h
      exact ⟨0, Nat.zero_le _, .faulted hs⟩
    | running =>
      rw [proceed_succ hs] at h
      rcases hn : m.next.2 with trap | value | v
      · rw [hn] at h
        cases h
        exact ⟨1, by omega, .trapped hs hn⟩
      · rw [hn] at h
        obtain ⟨n, hle, hr⟩ := ih h
        exact ⟨n + 1, by omega, .next hs hn (fun _ => rfl) hr⟩
      · rw [hn] at h
        cases pausing with
        | true =>
          cases h
          exact ⟨1, by omega, .paused hs rfl hn⟩
        | false =>
          obtain ⟨n, hle, hr⟩ := ih h
          exact ⟨n + 1, by omega, .next hs hn (fun hp => by cases hp) hr⟩

theorem Proceeds.proceed (h : m.Proceeds pausing n m' reply) (hle : n ≤ fuel) :
    m.proceed pausing fuel = some (m', reply) := by
  induction h generalizing fuel with
  | halted hs => exact proceed_of_halted hs
  | faulted hs => exact proceed_of_faulted hs
  | trapped hs hn =>
    obtain ⟨fuel, rfl⟩ := Nat.exists_eq_add_of_le' hle
    rw [proceed_succ hs, hn]
  | paused hs hp hn =>
    obtain ⟨fuel, rfl⟩ := Nat.exists_eq_add_of_le' hle
    rw [proceed_succ hs, hn, hp]
    rfl
  | @next m m' n reply value hs hn hp rest ih =>
    obtain ⟨fuel, rfl⟩ : ∃ k, fuel = k + 1 := ⟨fuel - 1, by omega⟩
    rw [proceed_succ hs, hn]
    have hr := @ih fuel (by omega)
    cases value with
    | none => exact hr
    | some v =>
      cases pausing with
      | true => cases hp rfl
      | false => exact hr

theorem Proceeds.unique {k : Nat} {m₁ : Machine} {reply₁ : Except Trap (Option Int)}
    (h : m.Proceeds pausing n m' reply) (h₁ : m.Proceeds pausing k m₁ reply₁) :
    m' = m₁ ∧ reply = reply₁ := by
  have hrun := h.proceed (Nat.le_max_left n k)
  rw [h₁.proceed (Nat.le_max_right n k)] at hrun
  cases hrun
  exact ⟨rfl, rfl⟩

def pauseOf (m : Machine) : Option Int → Pause
  | some v => .output v
  | none => .halted m.memory.toList m.outputs.toList

theorem runUntilOutput_eq_map (m : Machine) (fuel : Nat) (xs : List Int) :
    m.runUntilOutput fuel xs =
      ((m.feed xs).proceed true fuel).map fun r => (r.1, r.2.map r.1.pauseOf) := by
  unfold runUntilOutput
  rcases (m.feed xs).proceed true fuel with _ | ⟨m₁, trap | value | v⟩ <;> rfl

theorem runUntilOutput_eq_some_iff {result : Except Trap Pause} :
    m.runUntilOutput fuel xs = some (m', result) ↔
      ∃ n ≤ fuel, ∃ reply, (m.feed xs).Proceeds true n m' reply ∧
        result = reply.map m'.pauseOf := by
  rw [runUntilOutput_eq_map, Option.map_eq_some_iff]
  constructor
  · rintro ⟨⟨m₁, reply⟩, hp, he⟩
    cases he
    obtain ⟨n, hle, h⟩ := proceeds_of_proceed hp
    exact ⟨n, hle, reply, h, rfl⟩
  · rintro ⟨n, hle, reply, h, rfl⟩
    exact ⟨(m', reply), h.proceed hle, rfl⟩

theorem Proceeds.runUntilOutput (h : (m.feed xs).Proceeds true n m' reply) (hle : n ≤ fuel) :
    m.runUntilOutput fuel xs = some (m', reply.map m'.pauseOf) :=
  runUntilOutput_eq_some_iff.mpr ⟨n, hle, reply, h, rfl⟩

theorem runUntilOutput_mono {fuel' : Nat} {result : Machine × Except Trap Pause}
    (h : m.runUntilOutput fuel xs = some result) (hle : fuel ≤ fuel') :
    m.runUntilOutput fuel' xs = some result := by
  obtain ⟨n, hn, reply, hp, hr⟩ := runUntilOutput_eq_some_iff.mp h
  exact runUntilOutput_eq_some_iff.mpr ⟨n, Nat.le_trans hn hle, reply, hp, hr⟩

theorem proceeds_of_output {v : Int}
    (h : m.runUntilOutput fuel xs = some (m', .ok (.output v))) :
    ∃ n ≤ fuel, (m.feed xs).Proceeds true n m' (.ok (some v)) := by
  obtain ⟨n, hle, reply, hp, hr⟩ := runUntilOutput_eq_some_iff.mp h
  rcases reply with trap | value | w <;> cases hr
  exact ⟨n, hle, hp⟩

theorem proceeds_of_halted {memory outputs : List Int}
    (h : m.runUntilOutput fuel xs = some (m', .ok (.halted memory outputs))) :
    ∃ n ≤ fuel, (m.feed xs).Proceeds true n m' (.ok none) := by
  obtain ⟨n, hle, reply, hp, hr⟩ := runUntilOutput_eq_some_iff.mp h
  rcases reply with trap | value | w <;> cases hr
  exact ⟨n, hle, hp⟩

theorem runToCompletion_eq_map (m : Machine) (fuel : Nat) (dump : Bool) :
    m.runToCompletion fuel dump =
      (m.proceed false fuel).map fun r => (r.1, r.2.map fun _ => r.1.result dump) := by
  unfold runToCompletion
  rcases m.proceed false fuel with _ | ⟨m₁, trap | value⟩ <;> rfl

theorem runToCompletion_eq_some_iff {result : Except Trap (List Int)} :
    m.runToCompletion fuel dump = some (m', result) ↔
      ∃ n ≤ fuel, ∃ reply, m.Proceeds false n m' reply ∧
        result = reply.map fun _ => m'.result dump := by
  rw [runToCompletion_eq_map, Option.map_eq_some_iff]
  constructor
  · rintro ⟨⟨m₁, reply⟩, hp, he⟩
    cases he
    obtain ⟨n, hle, h⟩ := proceeds_of_proceed hp
    exact ⟨n, hle, reply, h, rfl⟩
  · rintro ⟨n, hle, reply, h, rfl⟩
    exact ⟨(m', reply), h.proceed hle, rfl⟩

theorem runToCompletion_mono {fuel' : Nat} {result : Machine × Except Trap (List Int)}
    (h : m.runToCompletion fuel dump = some result) (hle : fuel ≤ fuel') :
    m.runToCompletion fuel' dump = some result := by
  obtain ⟨n, hn, reply, hp, hr⟩ := runToCompletion_eq_some_iff.mp h
  exact runToCompletion_eq_some_iff.mpr ⟨n, Nat.le_trans hn hle, reply, hp, hr⟩

theorem Proceeds.toState (h : m.Proceeds pausing n m' reply) :
    m'.toState = State.advance^[n] m.toState := by
  induction h with
  | halted | faulted => rfl
  | trapped | paused => exact toState_next _
  | next hs hn hp rest ih => rw [ih, toState_next, Function.iterate_succ_apply]

theorem Proceeds.status (h : m.Proceeds pausing n m' reply) : m'.status = statusAfter reply := by
  induction h with
  | halted hs => exact hs
  | faulted hs => exact hs
  | trapped hs hn =>
    rw [reply_next] at hn
    rw [toState_next]
    exact State.status_of_error hn
  | paused hs hp hn =>
    rw [reply_next] at hn
    rw [toState_next]
    exact (State.status_of_emitted hn).2
  | next hs hn hp rest ih => exact ih

theorem Proceeds.stopped (h : m.Proceeds false n m' reply) : m'.status ≠ .running := by
  induction h with
  | halted hs => simp [hs]
  | faulted hs => simp [hs]
  | trapped hs hn =>
    rw [reply_next] at hn
    rw [toState_next, State.status_of_error hn]
    simp
  | paused hs hp hn => cases hp
  | next hs hn hp rest ih => exact ih

theorem Proceeds.outputs (h : m.Proceeds true n m' reply) :
    m'.outputs.toList = m.outputs.toList ++ emitted reply := by
  induction h with
  | halted | faulted => simp [emitted]
  | trapped hs hn | paused hs hp hn => rw [toState_next, State.outputs_advance, ← reply_next, hn]
  | next hs hn hp rest ih =>
    rw [ih, toState_next, State.outputs_advance, ← reply_next, hn, hp rfl]
    simp [emitted]

theorem proceeds_or_running (pausing : Bool) (n : Nat) (m : Machine) :
    (∃ k ≤ n, ∃ m' reply, m.Proceeds pausing k m' reply) ∨
      (State.advance^[n] m.toState).status = .running ∧
        (pausing = true → (State.advance^[n] m.toState).outputs = m.outputs) := by
  induction n generalizing m with
  | zero =>
    cases hs : m.status with
    | running => exact Or.inr ⟨hs, fun _ => rfl⟩
    | halted => exact Or.inl ⟨0, Nat.zero_le _, m, _, .halted hs⟩
    | faulted trap => exact Or.inl ⟨0, Nat.zero_le _, m, _, .faulted hs⟩
  | succ n ih =>
    cases hs : m.status with
    | halted => exact Or.inl ⟨0, Nat.zero_le _, m, _, .halted hs⟩
    | faulted trap => exact Or.inl ⟨0, Nat.zero_le _, m, _, .faulted hs⟩
    | running =>
      cases hn : m.next.2 with
      | error trap => exact Or.inl ⟨1, by omega, _, _, .trapped hs hn⟩
      | ok value =>
        by_cases hp : pausing = true → value = none
        · rw [Function.iterate_succ_apply, ← toState_next]
          obtain ⟨k, hk, m', reply, h⟩ | ⟨hr, ho⟩ := ih m.next.1
          · exact Or.inl ⟨k + 1, by omega, m', reply, .next hs hn hp h⟩
          · refine Or.inr ⟨hr, fun hq => (ho hq).trans ?_⟩
            have hadv := State.outputs_advance m.toState
            rw [← reply_next, hn, hp hq, emitted, List.append_nil, ← toState_next] at hadv
            exact Array.toList_inj.mp hadv
        · rw [Classical.not_imp] at hp
          obtain ⟨v, rfl⟩ := Option.ne_none_iff_exists'.mp hp.2
          exact Or.inl ⟨1, by omega, _, _, .paused hs hp.1 hn⟩

theorem proceeds_of_halting (h : (State.advance^[n] m.toState).status = .halted) :
    ∃ k ≤ n, ∃ m',
      (m.Proceeds true k m' (.ok none) ∧ m'.toState = State.advance^[n] m.toState) ∨
      ∃ v rest, m.Proceeds true k m' (.ok (some v)) ∧
        State.advance^[n - k] m'.toState = State.advance^[n] m.toState ∧
        (State.advance^[n] m.toState).outputs.toList = m.outputs.toList ++ v :: rest := by
  obtain ⟨k, hk, m', reply, hp⟩ | ⟨hr, -⟩ := proceeds_or_running true n m
  · have hend : State.advance^[n - k] m'.toState = State.advance^[n] m.toState := by
      rw [hp.toState, ← Function.iterate_add_apply, Nat.sub_add_cancel hk]
    have hsame : m'.status ≠ .running → m'.toState = State.advance^[n] m.toState := by
      intro hs
      rw [← hend]
      exact (Function.iterate_fixed (State.advance_of_stopped hs) _).symm
    have hstatus := hp.status
    refine ⟨k, hk, m', ?_⟩
    rcases reply with trap | value | v
    · have hm := hsame (by rw [hstatus]; simp [statusAfter])
      rw [← hm, hstatus] at h
      cases h
    · exact Or.inl ⟨hp, hsame (by rw [hstatus]; simp [statusAfter])⟩
    · obtain ⟨rest, hrest⟩ := State.outputs_prefix m'.toState (n - k)
      rw [hend, hp.outputs] at hrest
      refine Or.inr ⟨v, rest, hp, hend, ?_⟩
      rw [← hrest]
      simp [emitted]
  · rw [h] at hr
    cases hr

def answer (m : Machine) (dump : Bool) : Except Trap (List Int) :=
  match m.status with
  | .faulted trap => .error trap
  | .running | .halted => .ok (m.result dump)

theorem answer_eq_map (h : m'.status = statusAfter reply) :
    m'.answer dump = reply.map fun _ => m'.result dump := by
  unfold answer
  rw [h]
  rcases reply with trap | value | v <;> rfl

theorem runToCompletion_of_stopped (h : (State.advance^[n] m.toState).status ≠ .running)
    (hle : n ≤ fuel) (dump : Bool) :
    ∃ m', m.runToCompletion fuel dump = some (m', m'.answer dump) ∧
      m'.toState = State.advance^[n] m.toState := by
  obtain ⟨k, hk, m', reply, hp⟩ | ⟨hr, -⟩ := proceeds_or_running false n m
  · refine ⟨m', ?_, ?_⟩
    · rw [runToCompletion_eq_some_iff]
      exact ⟨k, Nat.le_trans hk hle, reply, hp, answer_eq_map hp.status⟩
    · have hs := hp.stopped
      rw [hp.toState] at hs ⊢
      exact (State.iterate_of_stopped hs hk).symm
  · exact absurd hr h

theorem execute_eq_map (fuel : Nat) (program : Memory) (inputs : List Int) (dump trace : Bool) :
    execute fuel program inputs dump trace =
      ((start program inputs trace).runToCompletion fuel dump).map fun r =>
        (if trace then r.1.dump else r.1, r.2) := by
  unfold execute
  cases (start program inputs trace).runToCompletion fuel dump <;> rfl

variable {program : Memory} {inputs : List Int} {trace : Bool}

theorem answer_of_execute {result : Except Trap (List Int)}
    (h : execute fuel program inputs dump trace = some (m, result)) :
    m.status ≠ .running ∧ result = m.answer dump := by
  rw [execute_eq_map] at h
  obtain ⟨⟨m₀, result₀⟩, hrun, he⟩ := Option.map_eq_some_iff.mp h
  obtain ⟨n, -, reply, hp, rfl⟩ := runToCompletion_eq_some_iff.mp hrun
  rw [← answer_eq_map hp.status] at he
  cases trace with
  | false =>
    cases he
    exact ⟨hp.stopped, rfl⟩
  | true =>
    cases he
    exact ⟨hp.stopped, rfl⟩

end Machine

end Intcode
