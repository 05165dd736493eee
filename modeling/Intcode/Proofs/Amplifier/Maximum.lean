import Intcode.Proofs.Activity
import Intcode.Proofs.Amplifier.Agreement
import Intcode.Proofs.Amplifier.Search

/-!
# The largest signal

The search goes through the orderings of the phases and keeps the first one with the largest signal
so far. Main statement: it settles on the first ordering with the largest signal of all, or else on
the failure of the first ordering that fails; it always has something to try.
-/

namespace Intcode.Amplifier

variable {program : Memory}

theorem steady_outputs (program : Memory) (inputs : List Int) :
    Steady fun fuel => outputs fuel program inputs :=
  .of_run Machine.runToCompletion_mono fun _ _ => outputs_eq_map

theorem steady_chain (program : Memory) (phases : List Int) (signal : Int) :
    Steady fun fuel => chain fuel program phases signal := by
  induction phases generalizing signal with
  | nil => exact .pure signal
  | cons phase phases ih =>
    refine (steady_outputs program [phase, signal]).bind fun values => ?_
    cases values with
    | nil => exact .fail (Failure.silent phase)
    | cons first => exact ih first

theorem turn_detached {fuel turns : Nat} {machines : List Machine} {signal : Int} {done : Bool}
    (log log' : Log) :
    (turn fuel turns machines signal done log).map Prod.fst =
      (turn fuel turns machines signal done log').map Prod.fst := by
  induction turns generalizing machines signal done log log' with
  | zero => rfl
  | succ turns ih =>
    cases machines with
    | nil => rfl
    | cons m others =>
      rcases hrun : m.runUntilOutput fuel [signal] with _ | ⟨m', trap | ⟨v⟩ | ⟨memory, outputs⟩⟩
      · rw [turn_of_none hrun, turn_of_none hrun]
      · rw [turn_of_error hrun, turn_of_error hrun]
        rfl
      · rw [turn_of_output hrun, turn_of_output hrun]
        exact ih (log ++ m'.journal) (log' ++ m'.journal)
      · rw [turn_of_halted hrun, turn_of_halted hrun]
        rfl

theorem steady_ring (program : Memory) (phases : List Int) (signal : Int) :
    Steady fun fuel => ring fuel program phases signal where
  mono hle h := turn_mono h hle hle
  detached _ log log' := turn_detached log log'

def runner (program : Memory) (feedback : Bool) (ordering : List Int) (fuel : Nat) :
    Activity Failure Int :=
  if feedback then ring fuel program ordering 0 else chain fuel program ordering 0

theorem steady_runner (program : Memory) (feedback : Bool) (ordering : List Int) :
    Steady (runner program feedback ordering) := by
  cases feedback with
  | false => exact steady_chain program ordering 0
  | true => exact steady_ring program ordering 0

def Delivers (program : Memory) (feedback : Bool) (ordering : List Int)
    (answer : Except Failure Int) : Prop :=
  Settles (runner program feedback ordering) answer

theorem chain_ne_nothingToTry {fuel : Nat} {phases : List Int} {signal : Int} {log log' : Log} :
    chain fuel program phases signal log ≠ some (.error .nothingToTry, log') := by
  induction phases generalizing signal log with
  | nil => intro h; cases h
  | cons phase phases ih =>
    intro h
    rw [chain] at h
    rcases hout : outputs fuel program [phase, signal] log with _ | ⟨e | _ | ⟨first, rest⟩, log₁⟩
    · rw [Activity.bind_of_none hout] at h
      cases h
    · rw [Activity.bind_of_error hout] at h
      cases h
      rw [outputs_eq_map] at hout
      obtain ⟨⟨m, trap | values⟩, -, he⟩ := Option.map_eq_some_iff.mp hout
      · cases he
      · cases he
    · rw [Activity.bind_of_ok hout] at h
      cases h
    · rw [Activity.bind_of_ok hout] at h
      exact ih h

theorem turn_ne_nothingToTry {fuel turns : Nat} {machines : List Machine} {signal : Int}
    {done : Bool} {log log' : Log} :
    turn fuel turns machines signal done log ≠ some (.error .nothingToTry, log') := by
  induction turns generalizing machines signal done log with
  | zero => intro h; cases h
  | succ turns ih =>
    intro h
    cases machines with
    | nil => cases h
    | cons m others =>
      rcases hrun : m.runUntilOutput fuel [signal] with _ | ⟨m', trap | ⟨v⟩ | ⟨memory, outputs⟩⟩
      · rw [turn_of_none hrun] at h
        cases h
      · rw [turn_of_error hrun] at h
        cases h
      · rw [turn_of_output hrun] at h
        exact ih h
      · rw [turn_of_halted hrun] at h
        cases done <;> cases h

theorem not_delivers_nothingToTry {feedback : Bool} {ordering : List Int} :
    ¬ Delivers program feedback ordering (.error .nothingToTry) := by
  rintro ⟨least, hleast⟩
  obtain ⟨log, h⟩ := hleast least (Nat.le_refl least)
  cases feedback with
  | false => exact chain_ne_nothingToTry h
  | true => exact turn_ne_nothingToTry h

variable {run : List Int → Nat → Activity Failure Int} {best : Option Best} {o : List Int}
  {os : List (List Int)} {phases : List Int}

theorem steady_attempt (hrun : ∀ o, Steady (run o)) (best : Option Best) (o : List Int) :
    Steady fun fuel => attempt (fun o => run o fuel) best o :=
  (hrun o).bind fun s => (Steady.report (.tried o s)).bind fun _ =>
    .pure (some (Best.improve best ⟨s, o⟩))

theorem settles_attempt_iff (hrun : ∀ o, Steady (run o))
    {answer : Except Failure (Option Best)} :
    Settles (fun fuel => attempt (fun o => run o fuel) best o) answer ↔
      (∃ e, Settles (run o) (.error e) ∧ answer = .error e) ∨
        ∃ s, Settles (run o) (.ok s) ∧ answer = .ok (some (.improve best ⟨s, o⟩)) := by
  refine (Steady.settles_bind_iff (hrun o) fun s => ?_).trans ?_
  · exact (Steady.report (.tried o s)).bind fun _ => .pure (some (Best.improve best ⟨s, o⟩))
  · exact or_congr_right (exists_congr fun s => and_congr_right fun _ => settles_const_iff rfl)

theorem steady_foldlM (hrun : ∀ o, Steady (run o)) (best : Option Best)
    (os : List (List Int)) :
    Steady fun fuel => os.foldlM (attempt fun o => run o fuel) best := by
  induction os generalizing best with
  | nil => exact .pure best
  | cons o os ih =>
    simp only [List.foldlM_cons]
    exact (steady_attempt hrun best o).bind ih

theorem settles_foldlM_iff (hrun : ∀ o, Steady (run o))
    {answer : Except Failure (Option Best)} :
    Settles (fun fuel => os.foldlM (attempt fun o => run o fuel) best) answer ↔
      Tries (fun o => Settles (run o)) best os answer := by
  induction os generalizing best with
  | nil =>
    refine (settles_const_iff rfl).trans ⟨?_, ?_⟩
    · rintro rfl
      exact .done
    · rintro ⟨⟩
      rfl
  | cons o os ih =>
    simp only [List.foldlM_cons]
    rw [Steady.settles_bind_iff (steady_attempt hrun best o) fun best => steady_foldlM hrun best os]
    constructor
    · rintro (⟨e, he, rfl⟩ | ⟨best', hbest, hrest⟩)
      · obtain ⟨e', he', hsame⟩ | ⟨s, -, hsame⟩ := (settles_attempt_iff hrun).mp he
        · cases hsame
          exact .failed he'
        · cases hsame
      · obtain ⟨e', -, hsame⟩ | ⟨s, hs, hsame⟩ := (settles_attempt_iff hrun).mp hbest
        · cases hsame
        · cases hsame
          exact .tried hs (ih.mp hrest)
    · intro h
      cases h with
      | @failed _ _ _ e he =>
        exact Or.inl ⟨e, (settles_attempt_iff hrun).mpr (Or.inl ⟨e, he, rfl⟩), rfl⟩
      | @tried _ _ _ s _ hs rest =>
        exact Or.inr ⟨_, (settles_attempt_iff hrun).mpr (Or.inr ⟨s, hs, rfl⟩), ih.mpr rest⟩

theorem steady_maximise (hrun : ∀ o, Steady (run o)) (phases : List Int) :
    Steady fun fuel => maximise (fun o => run o fuel) phases := by
  simp only [maximise, foldOrderings_eq_foldlM]
  refine (steady_foldlM hrun none (orderings phases)).bind fun best => ?_
  cases best with
  | none => exact .fail Failure.nothingToTry
  | some b => exact .pure b

theorem settles_maximise_iff (hrun : ∀ o, Steady (run o)) {answer : Except Failure Best} :
    Settles (fun fuel => maximise (fun o => run o fuel) phases) answer ↔
      (∃ e, Tries (fun o => Settles (run o)) none (orderings phases) (.error e) ∧
        answer = .error e) ∨
      ∃ b, Tries (fun o => Settles (run o)) none (orderings phases) (.ok (some b)) ∧
        answer = .ok b := by
  simp only [maximise, foldOrderings_eq_foldlM]
  refine (Steady.settles_bind_iff (steady_foldlM hrun none (orderings phases)) ?_).trans ?_
  · rintro (_ | b)
    · exact .fail Failure.nothingToTry
    · exact .pure b
  simp only [settles_foldlM_iff hrun]
  constructor
  · rintro (h | ⟨best, htries, hanswer⟩)
    · exact Or.inl h
    · obtain ⟨b, rfl, -⟩ := leads_of_tries htries
      exact Or.inr ⟨b, htries, (settles_const_iff rfl).mp hanswer⟩
  · rintro (h | ⟨b, htries, hanswer⟩)
    · exact Or.inl h
    · exact Or.inr ⟨some b, htries, (settles_const_iff rfl).mpr hanswer⟩

theorem steady_search (program : Memory) (phases : List Int) (feedback : Bool) :
    Steady fun fuel => search fuel program phases feedback :=
  steady_maximise (steady_runner program feedback) phases

theorem settles_search_ok_iff {program : Memory} {feedback : Bool} {b : Best} :
    Settles (fun fuel => search fuel program phases feedback) (.ok b) ↔
      Tries (Delivers program feedback) none (orderings phases) (.ok (some b)) := by
  refine (settles_maximise_iff (steady_runner program feedback)).trans ⟨?_, ?_⟩
  · rintro (⟨e, -, hsame⟩ | ⟨b', htries, hsame⟩)
    · cases hsame
    · cases hsame
      exact htries
  · intro htries
    exact Or.inr ⟨b, htries, rfl⟩

theorem settles_search_error_iff {program : Memory} {feedback : Bool} {e : Failure} :
    Settles (fun fuel => search fuel program phases feedback) (.error e) ↔
      Tries (Delivers program feedback) none (orderings phases) (.error e) := by
  refine (settles_maximise_iff (steady_runner program feedback)).trans ⟨?_, ?_⟩
  · rintro (⟨e', htries, hsame⟩ | ⟨b, -, hsame⟩)
    · cases hsame
      exact htries
    · cases hsame
  · intro htries
    exact Or.inl ⟨e, htries, rfl⟩

theorem Delivers.unique {program : Memory} {feedback : Bool} (o : List Int)
    (a b : Except Failure Int) (ha : Delivers program feedback o a)
    (hb : Delivers program feedback o b) : a = b :=
  Settles.unique ha hb

/-- The search settles on the first ordering with the largest signal, and it does so when every
ordering comes to an end with a signal. It settles on a failure exactly when that is the failure of
the first ordering that fails, and it does so when every ordering before a failing one comes to an
end. It always has something to try. -/
theorem search_maximises (program : Memory) (phases : List Int) (feedback : Bool) :
    (∀ best, Settles (fun fuel => search fuel program phases feedback) (.ok best) ↔
      best.Leads (Delivers program feedback) phases) ∧
    ((∀ o, o.Perm phases → ∃ s, Delivers program feedback o (.ok s)) →
      ∃ best, Settles (fun fuel => search fuel program phases feedback) (.ok best)) ∧
    (∀ e, Settles (fun fuel => search fuel program phases feedback) (.error e) ↔
      ∃ places, places.Perm (List.range phases.length) ∧
        Delivers program feedback (arrange phases places) (.error e) ∧
        ∀ earlier, earlier.Perm (List.range phases.length) → earlier < places →
          ∃ s, Delivers program feedback (arrange phases earlier) (.ok s)) ∧
    (∀ places e, places.Perm (List.range phases.length) →
      Delivers program feedback (arrange phases places) (.error e) →
      (∀ earlier, earlier.Perm (List.range phases.length) → earlier < places →
        ∃ answer, Delivers program feedback (arrange phases earlier) answer) →
      ∃ e', Settles (fun fuel => search fuel program phases feedback) (.error e')) ∧
    ∀ fuel log log', search fuel program phases feedback log ≠
      some (.error .nothingToTry, log') := by
  refine ⟨fun best => ?_, fun h => ?_, fun e => ?_, fun places e hplaces he h => ?_, ?_⟩
  · rw [settles_search_ok_iff]
    exact tries_ok_iff Delivers.unique
  · obtain ⟨best, htries⟩ := exists_tries_ok h
    exact ⟨best, settles_search_ok_iff.mpr htries⟩
  · rw [settles_search_error_iff]
    exact tries_error_iff
  · obtain ⟨e', htries⟩ := exists_tries_error hplaces he h
    exact ⟨e', settles_search_error_iff.mpr htries⟩
  · intro fuel log log' h
    have htries := settles_search_error_iff.mp ((steady_search program phases feedback).settles h)
    obtain ⟨places, -, hdelivers, -⟩ := tries_error_iff.mp htries
    exact not_delivers_nothingToTry hdelivers

theorem search_maximises_tie :
    Best.Leads (Delivers (.ofList [3, 0, 4, 0, 99]) false) [1, 1, -2] ⟨1, [1, -2, 1]⟩ := by
  have hsearch : ((search 3 (.ofList [3, 0, 4, 0, 99]) [1, 1, -2] false #[]).map fun outcome =>
      outcome.1.toOption) = some (some ⟨1, [1, -2, 1]⟩) := by decide +kernel
  obtain ⟨⟨e | best, log⟩, h, hbest⟩ := Option.map_eq_some_iff.mp hsearch
  · cases hbest
  · cases hbest
    have hsettles := (steady_search (.ofList [3, 0, 4, 0, 99]) [1, 1, -2] false).settles h
    exact ((search_maximises (.ofList [3, 0, 4, 0, 99]) [1, 1, -2] false).1 _).mp hsettles

end Intcode.Amplifier
