import Intcode.Gravity
import Intcode.Proofs.Activity
import Intcode.Proofs.Machine.Invariant

/-!
# Trying one pair

A run with a noun and a verb has a result or fails with a fault of a machine. The result is always
there, because a memory with a cell for the verb keeps its first cell to the end of the run.
-/

namespace Intcode.Gravity

variable {program memory : Memory} {noun verb target : Int} {fuel : Nat} {log log' : Log}
  {answer : Except Failure Int} {failure : Failure}

theorem patch_eq_ok_iff : patch program noun verb = .ok memory ↔
    3 ≤ program.size ∧ memory = (program.set nounAddress noun).set verbAddress verb := by
  simp only [patch, bind_eq_ok_iff, Memory.write_eq_ok_iff, Memory.Contains, nounAddress, verbAddress]
  constructor
  · rintro ⟨_, ⟨-, rfl⟩, ⟨-, hverb⟩, rfl⟩
    simp only [Memory.size_set] at hverb
    exact ⟨by omega, rfl⟩
  · rintro ⟨h, rfl⟩
    refine ⟨_, ⟨⟨by omega, by omega⟩, rfl⟩, ⟨by omega, ?_⟩, rfl⟩
    simp only [Memory.size_set]
    omega

def resultOf : Except Trap (List Int) → Except Failure Int
  | .error trap => .error (.trapped trap)
  | .ok cells =>
    match cells[resultAddress]? with
    | some value => .ok value
    | none => .error .noResult

theorem runWith_of_unpatchable {fault : Fault} (h : patch program noun verb = .error fault) :
    runWith fuel program noun verb log = some (.error (.unpatchable fault), log) := by
  simp only [runWith, h]

theorem runWith_of_patch (h : patch program noun verb = .ok memory) :
    runWith fuel program noun verb log =
      ((Machine.start memory [] false).runToCompletion fuel true).map fun r =>
        (resultOf r.2, log ++ r.1.journal) := by
  simp only [runWith, h]
  rcases (Machine.start memory [] false).runToCompletion fuel true with _ | ⟨m, trap | cells⟩
  · rfl
  · rfl
  · cases hcell : cells[resultAddress]? <;> simp [resultOf, hcell]

theorem steady_runWith (program : Memory) (noun verb : Int) :
    Steady fun fuel => runWith fuel program noun verb := by
  cases h : patch program noun verb with
  | error fault =>
    refine ⟨fun _ hrun => ?_, fun _ _ _ => ?_⟩
    · rw [runWith_of_unpatchable h] at hrun ⊢
      exact hrun
    · rw [runWith_of_unpatchable h, runWith_of_unpatchable h]
      rfl
  | ok memory =>
    exact Steady.of_run Machine.runToCompletion_mono fun fuel log => runWith_of_patch h

def Gives (program : Memory) (noun verb : Int) (answer : Except Failure Int) : Prop :=
  Settles (fun fuel => runWith fuel program noun verb) answer

theorem exists_fault
    (h : runWith fuel program noun verb log = some (.error failure, log')) :
    ∃ fault, failure.fault? = some fault := by
  cases hp : patch program noun verb with
  | error fault =>
    rw [runWith_of_unpatchable hp] at h
    cases h
    exact ⟨fault, rfl⟩
  | ok memory =>
    rw [runWith_of_patch hp] at h
    obtain ⟨⟨m, trap | cells⟩, hrun, he⟩ := Option.map_eq_some_iff.mp h
    · cases he
      exact ⟨trap.fault, rfl⟩
    · obtain ⟨⟨n, hproceeds⟩, rfl⟩ := Machine.halted_of_runToCompletion hrun
      have hsize : m.memory.size = memory.size := hproceeds.sound_end.size_eq
      obtain ⟨hlong, rfl⟩ := patch_eq_ok_iff.mp hp
      have hfirst : 0 < m.memory.toList.length := by
        simp only [Memory.size_set] at hsize
        simp only [Memory.toList, Array.length_toList]
        simp only [Memory.size] at hsize hlong
        omega
      simp [resultOf, Machine.result, resultAddress, hfirst] at he

theorem Gives.exists_fault (h : Gives program noun verb (.error failure)) :
    ∃ fault, failure.fault? = some fault := by
  obtain ⟨least, hleast⟩ := h
  obtain ⟨log, hlog⟩ := hleast least (Nat.le_refl least)
  exact Gravity.exists_fault hlog

theorem exists_gives_of_short (h : program.size < 3) (noun verb : Int) :
    ∃ fault, Gives program noun verb (.error (.unpatchable fault)) := by
  cases hp : patch program noun verb with
  | error fault => exact ⟨fault, 0, fun _ _ => ⟨#[], runWith_of_unpatchable hp⟩⟩
  | ok memory =>
    have hlong := (patch_eq_ok_iff.mp hp).1
    omega

def isHit (target : Int) : Except Failure Int → Bool
  | .ok value => value == target
  | .error _ => false

def noted (noun verb : Int) : Except Failure Int → Log → Log
  | .ok _, log => log
  | .error failure, log =>
    match failure.fault? with
    | some fault => log.push (.skipped noun verb fault)
    | none => log

theorem hits_eq : hits fuel program target noun verb log =
    (runWith fuel program noun verb log).map fun r =>
      (.ok (isHit target r.1), noted noun verb r.1 r.2) := by
  rcases hrun : runWith fuel program noun verb log with _ | ⟨failure | value, log'⟩
  · simp only [hits, hrun, Option.map_none]
  · obtain ⟨fault, hfault⟩ := exists_fault hrun
    simp only [hits, hrun, hfault, Option.map_some, isHit, noted]
  · simp only [hits, hrun, Option.map_some, isHit, noted]

theorem steady_hits (program : Memory) (target noun verb : Int) :
    Steady fun fuel => hits fuel program target noun verb :=
  (steady_runWith program noun verb).recast (f := fun a => .ok (isHit target a))
    (g := noted noun verb) fun _ _ => hits_eq

theorem settles_hits_iff {answer : Except Failure Bool} :
    Settles (fun fuel => hits fuel program target noun verb) answer ↔
      ∃ a, Gives program noun verb a ∧ answer = .ok (isHit target a) :=
  (steady_runWith program noun verb).settles_recast_iff (f := fun a => .ok (isHit target a))
    (g := noted noun verb) fun _ _ => hits_eq

end Intcode.Gravity
