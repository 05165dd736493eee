import Intcode.Command.Program
import Intcode.Proofs.Activity

/-!
# Loading programs

A command that names a program gets it from the text of the file, or gives up with the exit code
for programs that cannot be loaded. Only bytes that are no text make it end in another way.
-/

namespace Intcode

namespace Program

def fetch (files : File.View) (path : File.Path) : Except LoadError Memory :=
  match files.readText path with
  | .error cause => .error (.unreadable cause)
  | .ok text => ofText text

def loadingLog (path : File.Path) : Except LoadError Memory → Log → Log
  | .error _, log => log.push (.loadingProgram path.text)
  | .ok program, log => (log.push (.loadingProgram path.text)).push (.loadedProgram program.size)

variable {files : File.View} {path : File.Path} {log : Log}

theorem load_eq :
    load files path log = some (fetch files path, loadingLog path (fetch files path) log) := by
  unfold load fetch
  cases files.readText path with
  | error cause => rfl
  | ok text =>
    show _ = some (ofText text, loadingLog path (ofText text) log)
    refine (Activity.bind_of_ok (Activity.report_apply _ _)).trans ?_
    refine (Activity.bind_of_ok (Activity.ofExcept_apply _ _)).trans ?_
    cases ofText text <;> rfl

end Program

namespace Command

open Program (LoadError fetch loadingLog)

variable {files : File.View} {path : File.Path} {program : Memory} {log : Log}

def Loads (files : File.View) (path : File.Path) (program : Memory) : Prop :=
  ∃ text cells, files.readText path = .ok text ∧ Listing.read text = .ok cells ∧
    program = .ofList cells

/-- The path fails to open or leads to bytes that are a text. -/
def Readable (files : File.View) (path : File.Path) : Prop :=
  files.readText path ≠ .error .undecodable

theorem fetch_eq_ok_iff : fetch files path = .ok program ↔ Loads files path program := by
  unfold fetch Loads
  cases files.readText path with
  | error cause => simp
  | ok text => cases h : Listing.read text <;> simp [Program.ofText, h, eq_comm]

def loadEnding (e : LoadError) : Ending :=
  match e.message? with
  | some _ => .exit .loadError
  | none => .escaped .undecodable

def loadLog (path : File.Path) (result : Except LoadError Memory) (log : Log) : Log :=
  match result with
  | .ok _ => loadingLog path result log
  | .error e =>
    match e.message? with
    | some text =>
      (loadingLog path result log).push (.failure ("Cannot load " ++ path.text ++ ": " ++ text))
    | none => loadingLog path result log

section Message

variable {e : LoadError} {text : String}

theorem loadEnding_of_message (h : e.message? = some text) : loadEnding e = .exit .loadError := by
  simp only [loadEnding, h]

theorem loadEnding_of_none (h : e.message? = none) : loadEnding e = .escaped .undecodable := by
  simp only [loadEnding, h]

theorem loadLog_of_message (h : e.message? = some text) : loadLog path (.error e) log =
    (log.push (.loadingProgram path.text)).push
      (.failure ("Cannot load " ++ path.text ++ ": " ++ text)) := by
  simp only [loadLog, h, loadingLog]

theorem loadLog_of_none (h : e.message? = none) :
    loadLog path (.error e) log = log.push (.loadingProgram path.text) := by
  simp only [loadLog, h, loadingLog]

end Message

theorem loadProgram_eq : loadProgram files path log =
    some ((fetch files path).mapError loadEnding, loadLog path (fetch files path) log) := by
  unfold loadProgram
  rw [Program.load_eq]
  cases fetch files path with
  | ok program => rfl
  | error e =>
    show _ = some (Except.error (loadEnding e), loadLog path (.error e) log)
    cases h : e.message? with
    | none => simp only [h, loadEnding_of_none h, loadLog_of_none h, loadingLog]
    | some text =>
      simp only [h, loadEnding_of_message h, loadLog_of_message h, loadingLog]
      rfl

/-- A loader either fails with the exit code for programs that cannot be loaded or gives a program. -/
structure Supplies (loader : Activity Ending Memory) (fails : Prop) (gives : Memory → Prop) :
    Prop where
  steady : Steady fun _ => loader
  settles_iff {answer : Except Ending Memory} : Settles (fun _ => loader) answer ↔
    (fails ∧ answer = .error (.exit .loadError)) ∨ ∃ program, gives program ∧ answer = .ok program

namespace Supplies

variable {α : Type} {loader : Activity Ending Memory} {fails : Prop} {gives : Memory → Prop}
  {rest : Memory → Nat → Activity Ending α}

theorem settles_bind_iff (h : Supplies loader fails gives) (hrest : ∀ program, Steady (rest program))
    {answer : Except Ending α} :
    Settles (fun fuel => loader >>= fun program => rest program fuel) answer ↔
      (fails ∧ answer = .error (.exit .loadError)) ∨
        ∃ program, gives program ∧ Settles (rest program) answer := by
  rw [h.steady.settles_bind_iff hrest]
  simp only [h.settles_iff]
  constructor
  · rintro (⟨e, ⟨hfail, he⟩ | ⟨_, -, he⟩, rfl⟩ | ⟨program, ⟨-, he⟩ | ⟨_, hprogram, he⟩, hanswer⟩)
    · cases he
      exact Or.inl ⟨hfail, rfl⟩
    · cases he
    · cases he
    · cases he
      exact Or.inr ⟨program, hprogram, hanswer⟩
  · rintro (⟨hfail, rfl⟩ | ⟨program, hprogram, hanswer⟩)
    · exact Or.inl ⟨_, Or.inl ⟨hfail, rfl⟩, rfl⟩
    · exact Or.inr ⟨program, Or.inr ⟨program, hprogram, rfl⟩, hanswer⟩

end Supplies

end Command

end Intcode
