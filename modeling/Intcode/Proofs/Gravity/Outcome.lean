import Intcode.Proofs.Gravity.Trial

/-!
# How the run with a pair ends

A program without a cell for the noun or for the verb is refused before anything is executed. Main
statement: with both cells the run ends as the machine with the patched program does, with its
fault or with the first cell of its memory, and that cell is always there.
-/

namespace Intcode

namespace Memory

variable {m : Memory} {a v : Int}

theorem write_of_not_contains (h : ¬ m.Contains a) (v : Int) :
    m.write a v = .error (.outOfBounds a) := if_neg h

theorem set_eq_ofList (h : 0 ≤ a) (v : Int) : m.set a v = ofList (m.toList.set a.toNat v) := by
  rw [set, if_pos h, ofList, toList, ← Array.toList_setIfInBounds]

end Memory

namespace Gravity

variable {program memory : Memory} {noun verb : Int} {fuel n : Nat} {log log' : Log} {m : Machine}
  {reply : Except Trap (Option Int)} {answer : Except Failure Int}

theorem patch_of_lt_two (h : program.size < 2) (noun verb : Int) :
    patch program noun verb = .error (.outOfBounds 1) := by
  have hnoun : ¬ program.Contains nounAddress := by
    unfold Memory.Contains nounAddress
    omega
  rw [patch, Memory.write_of_not_contains hnoun]
  rfl

theorem patch_of_eq_two (h : program.size = 2) (noun verb : Int) :
    patch program noun verb = .error (.outOfBounds 2) := by
  have hnoun : program.Contains nounAddress := by
    unfold Memory.Contains nounAddress
    omega
  have hverb : ¬ (program.set nounAddress noun).Contains verbAddress := by
    unfold Memory.Contains verbAddress
    rw [Memory.size_set]
    omega
  rw [patch, Memory.write_eq_ok_iff.mpr ⟨hnoun, rfl⟩]
  exact Memory.write_of_not_contains hverb verb

def patched (program : Memory) (noun verb : Int) : Machine :=
  .start (.ofList ((program.toList.set 1 noun).set 2 verb)) [] false

theorem runWith_eq_map (h : 2 < program.size) :
    runWith fuel program noun verb log =
      ((patched program noun verb).runToCompletion fuel true).map fun r =>
        (resultOf r.2, log ++ r.1.journal) := by
  refine runWith_of_patch (patch_eq_ok_iff.mpr ⟨h, ?_⟩)
  rw [Memory.set_eq_ofList (by decide), Memory.set_eq_ofList (by decide), Memory.toList_ofList]
  rfl

theorem size_patched (program : Memory) (noun verb : Int) :
    (patched program noun verb).memory.size = program.size := by
  rw [patched, Machine.start, Memory.size_ofList, List.length_set, List.length_set]
  exact Array.length_toList

inductive Outcome (m : Machine) : Except Failure Int → Prop
  | failed {trap : Trap} (h : m.status = .faulted trap) : Outcome m (.error (.trapped trap))
  | result {v : Int} (h : m.status = .halted) (hv : m.memory.read 0 = .ok v) : Outcome m (.ok v)

theorem outcome_iff (hstop : m.status ≠ .running) (hfirst : m.memory.Contains 0) :
    Outcome m answer ↔ answer = resultOf (m.answer true) := by
  unfold Machine.answer
  cases hs : m.status with
  | running => exact absurd hs hstop
  | faulted trap =>
    constructor
    · intro h
      cases h with
      | failed ht =>
        cases hs.symm.trans ht
        rfl
      | result hh => cases hs.symm.trans hh
    · rintro rfl
      exact .failed hs
  | halted =>
    have hread : m.memory.read 0 = .ok _ := dif_pos hfirst
    have hcell : (m.result true)[resultAddress]? = some _ := Memory.getElem?_of_read hread
    constructor
    · intro h
      cases h with
      | failed ht => cases hs.symm.trans ht
      | result _ hv =>
        cases hread.symm.trans hv
        simp only [resultOf, hcell]
    · rintro rfl
      simp only [resultOf, hcell]
      exact .result hs hread

theorem contains_of_proceeds (h : 2 < program.size)
    (hp : (patched program noun verb).Proceeds false n m reply) : m.memory.Contains 0 := by
  have hsize : m.memory.size = (patched program noun verb).memory.size := hp.sound_end.size_eq
  rw [size_patched] at hsize
  unfold Memory.Contains
  omega

/-- A program of fewer than two cells has none for the noun and one of two cells none for the verb:
both are refused at once. With a longer program the run ends when the patched machine stops: it
fails with the fault of that machine or gives the first cell of its memory, which is always there.
-/
theorem runWith_ends (program : Memory) (noun verb : Int) (fuel : Nat) (log : Log) :
    (program.size < 2 → runWith fuel program noun verb log =
      some (.error (.unpatchable (.outOfBounds 1)), log)) ∧
    (program.size = 2 → runWith fuel program noun verb log =
      some (.error (.unpatchable (.outOfBounds 2)), log)) ∧
    (2 < program.size →
      (∀ answer log', runWith fuel program noun verb log = some (answer, log') ↔
        ∃ n ≤ fuel, ∃ m reply, (patched program noun verb).Proceeds false n m reply ∧
          Outcome m answer ∧ log' = log ++ m.journal) ∧
      ∀ n m reply, (patched program noun verb).Proceeds false n m reply →
        m.memory.Contains 0 ∧ ∃ answer, Outcome m answer) := by
  refine ⟨fun h => ?_, fun h => ?_, fun h => ⟨fun answer log' => ?_, fun n m reply hp => ?_⟩⟩
  · exact runWith_of_unpatchable (patch_of_lt_two h noun verb)
  · exact runWith_of_unpatchable (patch_of_eq_two h noun verb)
  · rw [runWith_eq_map h, Option.map_eq_some_iff]
    constructor
    · rintro ⟨⟨m, result⟩, hrun, he⟩
      obtain ⟨n, hle, reply, hp, rfl⟩ := Machine.runToCompletion_eq_some_iff.mp hrun
      cases he
      have hfirst := contains_of_proceeds h hp
      refine ⟨n, hle, m, reply, hp, (outcome_iff hp.stopped hfirst).mpr ?_, rfl⟩
      rw [Machine.answer_eq_map hp.status]
    · rintro ⟨n, hle, m, reply, hp, houtcome, rfl⟩
      refine ⟨(m, reply.map fun _ => m.result true),
        Machine.runToCompletion_eq_some_iff.mpr ⟨n, hle, reply, hp, rfl⟩, ?_⟩
      rw [(outcome_iff hp.stopped (contains_of_proceeds h hp)).mp houtcome,
        Machine.answer_eq_map hp.status]
  · have hfirst := contains_of_proceeds h hp
    exact ⟨hfirst, _, (outcome_iff hp.stopped hfirst).mpr rfl⟩

theorem runWith_ends_sum :
    (∃ n ≤ 2, ∃ m reply, (patched (.ofList [1101, 0, 0, 0, 99]) 5 6).Proceeds false n m reply ∧
      Outcome m (.ok 11) ∧ #[.halted 4] = #[] ++ m.journal) ∧
    runWith 0 (.ofList []) 5 6 #[] = some (.error (.unpatchable (.outOfBounds 1)), #[]) ∧
    runWith 0 (.ofList [7, 8]) 5 6 #[] = some (.error (.unpatchable (.outOfBounds 2)), #[]) := by
  have hsum : runWith 2 (.ofList [1101, 0, 0, 0, 99]) 5 6 #[] = some (.ok 11, #[.halted 4]) := rfl
  refine ⟨?_, ?_, ?_⟩
  · exact (((runWith_ends (.ofList [1101, 0, 0, 0, 99]) 5 6 2 #[]).2.2 (by decide)).1 _ _).mp hsum
  · exact (runWith_ends (.ofList []) 5 6 0 #[]).1 (by decide)
  · exact (runWith_ends (.ofList [7, 8]) 5 6 0 #[]).2.1 (by decide)

end Gravity

end Intcode
