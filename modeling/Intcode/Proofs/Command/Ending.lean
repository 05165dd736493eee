import Intcode.Proofs.Command.Configuration

/-!
# How jobs fail

A job that fails has told why: the last event of its log is the reason, and it is shown. The one
exception is a program whose bytes are no text.
-/

namespace Intcode

namespace Activity

variable {ε α β : Type} {P : ε → Log → Prop} {x : Activity ε α} {f : α → Activity ε β}

def Fails (P : ε → Log → Prop) (x : Activity ε α) : Prop :=
  ∀ log e log', x log = some (.error e, log') → P e log'

theorem fails_report (event : Event) : Fails P (report event) := by
  intro log e log' h
  cases h

theorem Fails.bind (hx : Fails P x) (hf : ∀ a, Fails P (f a)) : Fails P (x >>= f) := by
  intro log e log' h
  rcases hrun : x log with _ | ⟨e' | a, after⟩
  · rw [bind_of_none hrun] at h
    cases h
  · rw [bind_of_error hrun] at h
    cases h
    exact hx log _ _ hrun
  · rw [bind_of_ok hrun] at h
    exact hf a after _ _ h

end Activity

namespace Command

open Activity (Fails fails_report)

variable {files : File.View} {path : File.Path} {least : Level} {fuel : Nat} {settings : Settings}

/-- An ending with its reason in the log, or a program whose bytes are no text. -/
inductive Told (least : Level) (files : File.View) (path : File.Path) : Ending → Log → Prop
  | reason {exit : Exit} {before : Log} {event : Event} (hexit : exit ≠ .success)
      (hlevel : event.level ≠ .debug) (hshown : least.rank ≤ event.level.rank) :
      Told least files path (.exit exit) (before.push event)
  | garbled {log : Log} (h : ¬ Readable files path) : Told least files path (.escaped .undecodable) log

theorem rank_least (verbose : Bool) : (Command.least verbose).rank ≤ Level.info.rank := by
  cases verbose <;> decide

theorem told_failure {exit : Exit} (hexit : exit ≠ .success) (text : String) (before : Log) :
    Told least files path (.exit exit) (before.push (.failure text)) :=
  .reason hexit (by simp [Event.level]) (Console.rank_le_error least)

theorem not_readable_of_fetch {e : Program.LoadError} (h : Program.fetch files path = .error e)
    (he : e.message? = none) : ¬ Readable files path := by
  unfold Program.fetch at h
  cases htext : files.readText path with
  | error cause =>
    rw [htext] at h
    cases h
    cases cause with
    | unopened obstacle path => cases he
    | undecodable => exact fun hread => hread htext
  | ok text =>
    rw [htext] at h
    cases hlisting : Listing.read text with
    | ok cells => simp [Program.ofText, hlisting] at h
    | error cause =>
      simp only [Program.ofText, hlisting] at h
      cases h
      cases he

structure Tells {α : Type} (least : Level) (files : File.View) (path : File.Path)
    (job : Activity Ending α) : Prop where
  fails : Fails (Told least files path) job
  loses : ∀ {e : Program.LoadError}, Program.fetch files path = .error e → ∀ log, ∃ before,
    job log = some (.error (loadEnding e), loadLog path (.error e) before)

section Jobs

variable {α β : Type} {job : Activity Ending α} {rest : α → Activity Ending β}

theorem Tells.bind (h : Tells least files path job)
    (hrest : ∀ a, Fails (Told least files path) (rest a)) :
    Tells least files path (job >>= rest) where
  fails := h.fails.bind hrest
  loses hfetch log := by
    obtain ⟨before, hjob⟩ := h.loses hfetch log
    exact ⟨before, Activity.bind_of_error hjob⟩

theorem Tells.behind_report (h : Tells least files path job) (event : Event) :
    Tells least files path (.report event >>= fun _ => job) where
  fails := (fails_report event).bind fun _ => h.fails
  loses hfetch log := h.loses hfetch (log.push event)

theorem tells_loadProgram : Tells least files path (loadProgram files path) where
  fails log e log' h := by
    rw [loadProgram_eq] at h
    cases hfetch : Program.fetch files path with
    | ok program =>
      rw [hfetch] at h
      cases h
    | error cause =>
      rw [hfetch] at h
      cases h
      cases hm : cause.message? with
      | some text =>
        rw [loadEnding_of_message hm, loadLog_of_message hm]
        exact told_failure (by decide) _ _
      | none =>
        rw [loadEnding_of_none hm]
        exact .garbled (not_readable_of_fetch hfetch hm)
  loses {e} hfetch log := by
    rw [loadProgram_eq, hfetch]
    exact ⟨log, rfl⟩

theorem fails_checkSize (program : Memory) : Fails (Told least files path) (checkSize program) := by
  intro log e log' h
  unfold checkSize at h
  split at h
  · cases h
    exact told_failure (by decide) _ _
  · cases h

theorem tells_loadPatchable : Tells least files path (loadPatchable files path) :=
  tells_loadProgram.bind fails_checkSize

theorem fails_printed {ε : Type} (text : α → String) (message : ε → String) (work : Activity ε α) :
    Fails (Told least files path) (conclude (printed text) (announced message) work) := by
  intro log e log' h
  obtain ⟨⟨answer, after⟩, -, hend⟩ := Option.map_eq_some_iff.mp h
  cases answer with
  | ok a => cases hend
  | error reason =>
    cases hend
    exact told_failure (by decide) _ _

theorem fails_pairPrinted (hleast : least.rank ≤ Level.info.rank) (target limit : Int)
    (work : Activity Gravity.Failure (Option (Int × Int))) :
    Fails (Told least files path) (conclude pairPrinted (pairAnnounced target limit) work) := by
  intro log e log' h
  obtain ⟨⟨answer, after⟩, -, hend⟩ := Option.map_eq_some_iff.mp h
  rcases answer with failure | _ | ⟨noun, verb⟩
  · cases hend
    exact told_failure (by decide) _ _
  · cases hend
    exact .reason (by decide) (by simp [Event.level]) hleast
  · cases hend

theorem tells_executeJob : Tells least files path (executeJob fuel files settings path) := by
  rw [executeJob_eq]
  exact (tells_loadProgram.bind fun _ => fails_printed _ _ _).behind_report _

theorem tells_amplifyJob {phases : List Int} {feedback : Bool} :
    Tells least files path (amplifyJob fuel files path phases feedback) := by
  rw [amplifyJob_eq]
  exact (tells_loadProgram.bind fun _ => fails_printed _ _ _).behind_report _

theorem tells_pairJob {noun verb : Int} :
    Tells least files path (pairJob fuel files path noun verb) := by
  rw [pairJob_eq]
  exact tells_loadPatchable.bind fun _ => fails_printed _ _ _

theorem tells_searchJob {target limit : Int} (hleast : least.rank ≤ Level.info.rank) :
    Tells least files path (searchJob fuel files path target limit) := by
  rw [searchJob_eq]
  exact tells_loadPatchable.bind fun _ => fails_pairPrinted hleast _ _ _

theorem tells_gravityJob {target limit : Int} (hleast : least.rank ≤ Level.info.rank)
    (pair? : Option (Int × Int)) :
    Tells least files path (gravityJob fuel files path (pair?.map Prod.fst) (pair?.map Prod.snd)
      target limit) := by
  cases pair? with
  | none => exact (tells_searchJob hleast).behind_report _
  | some pair => exact tells_pairJob.behind_report _

end Jobs

end Command

end Intcode
