import Intcode.Amplifier.Chain
import Intcode.Proofs.Amplifier.Delivery

/-!
# Rows and rings

A row lets each amplifier run to its end, a ring suspends it at its first output. One round of the
ring passes the same signals on as the row. When the first amplifier has nothing more to say, the
second round is over before it begins.
-/

namespace Intcode.Amplifier

variable {program : Memory} {phase : Int} {phases : List Int} {signal s : Int} {fuel : Nat}
  {log log' : Log}

theorem outputs_eq_map {inputs : List Int} :
    outputs fuel program inputs log =
      ((Machine.start program inputs false).runToCompletion fuel false).map fun r =>
        (r.2.mapError .trapped, log ++ r.1.journal) := by
  unfold outputs
  cases (Machine.start program inputs false).runToCompletion fuel false <;> rfl

theorem outputs_of_run {inputs : List Int} {m : Machine} {result : Except Trap (List Int)}
    (h : (Machine.start program inputs false).runToCompletion fuel false = some (m, result)) :
    outputs fuel program inputs log = some (result.mapError .trapped, log ++ m.journal) := by
  rw [outputs_eq_map, h, Option.map_some]

theorem outputs_eq_ok {inputs values : List Int}
    (h : outputs fuel program inputs log = some (.ok values, log')) :
    ∃ m, (Machine.start program inputs false).runToCompletion fuel false =
      some (m, .ok values) := by
  rw [outputs_eq_map] at h
  obtain ⟨⟨m, trap | found⟩, hrun, he⟩ := Option.map_eq_some_iff.mp h
  · cases he
  · cases he
    exact ⟨m, hrun⟩

theorem chain_cons {first : Int} {rest : List Int}
    (h : outputs fuel program [phase, signal] log = some (.ok (first :: rest), log')) :
    chain fuel program (phase :: phases) signal log = chain fuel program phases first log' := by
  rw [chain, Activity.bind_apply, h]

theorem chain_cons_eq_ok
    (h : chain fuel program (phase :: phases) signal log = some (.ok s, log')) :
    ∃ m first rest log₁,
      (Machine.start program [phase, signal] false).runToCompletion fuel false =
        some (m, .ok (first :: rest)) ∧
      chain fuel program phases first log₁ = some (.ok s, log') := by
  rcases ho : outputs fuel program [phase, signal] log with
    _ | ⟨failure | _ | ⟨first, rest⟩, log₁⟩
  · rw [chain, Activity.bind_apply, ho] at h
    cases h
  · rw [chain, Activity.bind_apply, ho] at h
    cases h
  · rw [chain, Activity.bind_apply, ho] at h
    cases h
  · rw [chain_cons ho] at h
    obtain ⟨m, hm⟩ := outputs_eq_ok ho
    exact ⟨m, first, rest, log₁, hm, h⟩

theorem suspended_of_completed {m : Machine} {first : Int} {rest : List Int}
    (h : (Machine.start program [phase, signal] false).runToCompletion fuel false =
      some (m, .ok (first :: rest))) :
    ∃ k m₁ n, ((Machine.start program [phase] false).feed [signal]).Proceeds true k m₁
        (.ok (some first)) ∧
      (State.advance^[n] m₁.toState).status = .halted ∧
      (State.advance^[n] m₁.toState).outputs.toList = first :: rest := by
  obtain ⟨n, -, reply, hp, hr⟩ := Machine.runToCompletion_eq_some_iff.mp h
  have hout : m.outputs.toList = first :: rest := by
    rcases reply with trap | value
    · cases hr
    · exact (Except.ok.inj hr).symm
  have hhalt : m.status = .halted := by
    have hstopped := hp.stopped
    rw [hp.status] at hstopped ⊢
    rcases reply with trap | value | v
    · cases hr
    · rfl
    · exact absurd rfl hstopped
  have hstate := hp.toState
  rw [hstate] at hout hhalt
  obtain ⟨k, -, m₁, ⟨hpaused, hsame⟩ | ⟨v, others, hpaused, hend, hlist⟩⟩ :=
    Machine.proceeds_of_halting hhalt
  · have hsilent := hpaused.outputs
    rw [hsame, hout] at hsilent
    cases hsilent
  · rw [hout] at hlist
    cases hlist
    refine ⟨k, m₁, n - k, hpaused, ?_, ?_⟩
    · rw [hend]
      exact hhalt
    · rw [hend]
      exact hout

theorem turn_of_chain (h : chain fuel program phases signal log = some (.ok s, log')) :
    ∃ least machines, ∀ fuel, least ≤ fuel → ∀ turns others log, ∃ log',
      turn fuel (turns + phases.length) (ringOf program phases ++ others) signal true log =
        turn fuel turns (others ++ machines) s true log' := by
  induction phases generalizing signal log with
  | nil =>
    cases h
    exact ⟨0, [], fun fuel _ turns others log => ⟨log, by rw [List.append_nil]; rfl⟩⟩
  | cons phase phases ih =>
    obtain ⟨m, first, rest, log₁, hrun, htail⟩ := chain_cons_eq_ok h
    obtain ⟨k, m₁, n, hpaused, -⟩ := suspended_of_completed hrun
    obtain ⟨least, machines, hleast⟩ := ih htail
    refine ⟨max least k, m₁.takeJournal.1 :: machines, fun fuel hle turns others log => ?_⟩
    have hcall := hpaused.runUntilOutput (Nat.le_trans (Nat.le_max_right _ _) hle)
    obtain ⟨log', hturn⟩ := hleast fuel (Nat.le_trans (Nat.le_max_left _ _) hle) turns
      (others ++ [m₁.takeJournal.1]) (log ++ m₁.journal)
    refine ⟨log', ?_⟩
    calc turn fuel (turns + (phases.length + 1))
          (Machine.start program [phase] false :: (ringOf program phases ++ others)) signal true log
        = turn fuel (turns + phases.length)
            (ringOf program phases ++ others ++ [m₁.takeJournal.1]) first true
            (log ++ m₁.journal) := turn_of_output hcall
      _ = turn fuel (turns + phases.length)
            (ringOf program phases ++ (others ++ [m₁.takeJournal.1])) first true
            (log ++ m₁.journal) := by rw [List.append_assoc]
      _ = turn fuel turns (others ++ [m₁.takeJournal.1] ++ machines) s true log' := hturn
      _ = turn fuel turns (others ++ m₁.takeJournal.1 :: machines) s true log' := by
          rw [List.append_assoc]
          rfl

theorem proceeds_of_spent {m : Machine} {n : Nat}
    (hs : (State.advance^[n] m.toState).status = .halted)
    (ho : (State.advance^[n] m.toState).outputs.toList = m.outputs.toList) (x : Int) :
    ∃ k m', (m.feed [x]).Proceeds true k m' (.ok none) := by
  have hfeed : State.advance^[n] (m.feed [x]).toState =
      (State.advance^[n] m.toState).feed [x] := by
    refine State.iterate_feed ?_ [x]
    rintro ⟨ip, hstarved⟩
    rw [hs] at hstarved
    cases hstarved
  have hhalt : (State.advance^[n] (m.feed [x]).toState).status = .halted := by
    rw [hfeed]
    exact hs
  obtain ⟨k, -, m', ⟨hend, -⟩ | ⟨v, rest, -, -, hlist⟩⟩ := Machine.proceeds_of_halting hhalt
  · exact ⟨k, m', hend⟩
  · have hmore : m.outputs.toList = m.outputs.toList ++ v :: rest := by
      rw [hfeed] at hlist
      exact ho.symm.trans hlist
    have hlen := congrArg List.length hmore
    simp at hlen

/-- Where a row passes a signal on and its first amplifier emits nothing else, the ring comes to an
end with the same signal. -/
theorem ring_agrees_with_chain (hp : phases ≠ [])
    (hc : (chain fuel program phases signal).perform = some (.ok s, log)) {fuel₁ : Nat} {v : Int}
    {log₁ : Log}
    (h₁ : (outputs fuel₁ program [phases.head hp, signal]).perform = some (.ok [v], log₁)) :
    Answers program phases signal (.ok s) := by
  cases phases with
  | nil => exact absurd rfl hp
  | cons phase phases =>
    obtain ⟨m', first, rest, log₂, hrun, htail⟩ := chain_cons_eq_ok hc
    obtain ⟨m, honce⟩ := outputs_eq_ok h₁
    obtain ⟨k, m₁, n, hpaused, hhalt, hout⟩ := suspended_of_completed honce
    obtain ⟨_, _, _, hagain, -⟩ := suspended_of_completed hrun
    cases (hpaused.unique hagain).2
    have hspent : (State.advance^[n] m₁.toState).outputs.toList = m₁.outputs.toList :=
      hout.trans hpaused.outputs.symm
    obtain ⟨k₂, m₂, hend⟩ := @proceeds_of_spent m₁.takeJournal.1 n hhalt hspent s
    obtain ⟨least, machines, hleast⟩ := turn_of_chain htail
    let used := max least (max k k₂)
    let fuel := used + 1 + phases.length + 1
    obtain ⟨log', hround⟩ := hleast fuel (by omega) (used + 1) [m₁.takeJournal.1]
      (#[] ++ m₁.journal)
    have hfirst := hpaused.runUntilOutput (show k ≤ fuel by omega)
    have hsecond := hend.runUntilOutput (show k₂ ≤ fuel by omega)
    refine @answers_of_perform program (phase :: phases) signal fuel (log' ++ m₂.journal) _ ?_
    calc turn fuel fuel (ringOf program (phase :: phases)) signal false #[]
        = turn fuel (used + 1 + phases.length) (ringOf program phases ++ [m₁.takeJournal.1]) v true
            (#[] ++ m₁.journal) := turn_of_output hfirst
      _ = turn fuel (used + 1) (m₁.takeJournal.1 :: machines) s true log' := hround
      _ = some (.ok s, log' ++ m₂.journal) := turn_of_halted hsecond

theorem ring_agrees_with_chain_sum :
    Answers (.ofList [3, 11, 3, 12, 1, 11, 12, 11, 4, 11, 99, 0, 0]) [5, 6] 7 (.ok 18) := by
  let ended (a b : Int) : Machine :=
    { memory := .ofList [3, 11, 3, 12, 1, 11, 12, 11, 4, 11, 99, a, b], ip := 10, outputs := #[a]
      status := .halted, journal := #[.halted 10] }
  have h₁ : (Machine.start (.ofList [3, 11, 3, 12, 1, 11, 12, 11, 4, 11, 99, 0, 0]) [5, 7]
      false).runToCompletion 5 false = some (ended 12 7, .ok [12]) := rfl
  have h₂ : (Machine.start (.ofList [3, 11, 3, 12, 1, 11, 12, 11, 4, 11, 99, 0, 0]) [6, 12]
      false).runToCompletion 5 false = some (ended 18 12, .ok [18]) := rfl
  have hc : (chain 5 (.ofList [3, 11, 3, 12, 1, 11, 12, 11, 4, 11, 99, 0, 0]) [5, 6] 7).perform =
      some (.ok 18, #[] ++ #[.halted 10] ++ #[.halted 10]) :=
    (chain_cons (outputs_of_run h₁)).trans (chain_cons (outputs_of_run h₂))
  exact ring_agrees_with_chain (List.cons_ne_nil 5 [6]) hc (outputs_of_run h₁)

end Intcode.Amplifier
