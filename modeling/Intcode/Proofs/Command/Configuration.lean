import Intcode.Proofs.Command.Job
import Intcode.Proofs.Console
import Intcode.Proofs.Settings.Loading

/-!
# Configurations

The settings of a run come from a file, if one is named, and from the options. Once they are known
the report is that of the job, on a console that has been set up by then: by the command, or by the
attempt to read the file.
-/

namespace Intcode

namespace Command

open CommandLine (Invocation)

variable {files : File.View} {words : List String} {i : Invocation} {given : Settings.Given}
  {fuel : Nat}

def configured (files : File.View) (i : Invocation) : Except Settings.LoadError Settings.Given :=
  match i.path? "config" with
  | none => .ok {}
  | some written => Settings.fetch files (.ofString written)

theorem configured_of_text {written : String} {text : List Char}
    (hp : i.path? "config" = some written)
    (htext : files.readText (.ofString written) = .ok text)
    (h : (Settings.ofText text).toOption = some given) : configured files i = .ok given := by
  simp only [configured, hp]
  exact Settings.fetch_of_text htext h

def effective (given : Settings.Given) (i : Invocation) : Settings :=
  (({} : Settings).update given).update (optionSettings i)

theorem turnedOn_getD (i : Invocation) (name : String) (b : Bool) :
    (turnedOn i name).getD b = (i.has name || b) := by
  unfold turnedOn
  cases i.has name <;> rfl

theorem effective_verbose (given : Settings.Given) (i : Invocation) :
    (effective given i).verbose = (i.has "verbose" || given.verbose.getD false) :=
  turnedOn_getD i "verbose" _

theorem effective_trace (given : Settings.Given) (i : Invocation) :
    (effective given i).trace = (i.has "trace" || given.trace.getD false) :=
  turnedOn_getD i "trace" _

def dumpOf (given : Settings.Given) (i : Invocation) : Bool :=
  i.has "dump" || given.dumpMemory.getD false

theorem effective_dumpMemory (given : Settings.Given) (i : Invocation) :
    (effective given i).dumpMemory = dumpOf given i :=
  turnedOn_getD i "dump" _

/-- The inputs of a run: the values of the option if there are any, else those of the file, else
none. -/
def inputsOf (given : Settings.Given) (i : Invocation) : List Int :=
  if i.integers "input" = [] then given.inputs.getD [] else i.integers "input"

theorem effective_inputs (given : Settings.Given) (i : Invocation) :
    (effective given i).inputs = inputsOf given i := by
  simp only [effective, Settings.update, optionSettings, inputsOf]
  cases i.integers "input" <;> rfl

def wanted (settings : Settings) : Level :=
  least (settings.verbose || settings.trace)

def threshold (i : Invocation) (settings : Settings) : Level :=
  match i.path? "config" with
  | none => wanted settings
  | some _ => .error

def settingsLog (i : Invocation) : Log :=
  match i.path? "config" with
  | none => #[]
  | some written => #[.loadingSettings (File.Path.ofString written).text]

theorem fileSettings_eq : (fileSettings files i).perform =
    some (((configured files i).map ({} : Settings).update).mapError settingsEnding,
      settingsLog i) := by
  unfold fileSettings configured settingsLog
  cases i.path? "config" with
  | none => rfl
  | some written => simp only [Activity.perform, Activity.mapError, Settings.load_eq]; rfl

theorem emit_settingsLog (i : Invocation) :
    (Console.unsettled.emit (settingsLog i)).2 = "" ∧ ∀ settings : Settings,
      (Console.unsettled.emit (settingsLog i)).1.setUp (wanted settings) =
        .showing (threshold i settings) := by
  unfold settingsLog threshold
  cases i.path? "config" with
  | none => exact ⟨rfl, fun settings => rfl⟩
  | some written =>
    have hlevel : (Event.loadingSettings (File.Path.ofString written).text).level ≠ .error := by
      simp [Event.level]
    rw [Console.emit_unsettled hlevel]
    exact ⟨rfl, fun settings => rfl⟩

theorem execute_of_configured (hi : CommandLine.invoke files executeCommand.choices words = .ok i)
    (hc : configured files i = .ok given) :
    execute fuel files words =
      executeCommand.carryOut (.showing (threshold i (effective given i)))
        (executeJob fuel files (effective given i) (.ofString i.operand)) := by
  rw [← (emit_settingsLog i).2 (effective given i)]
  simp only [execute, hi, fileSettings_eq, hc]
  rfl

theorem execute_of_misconfigured {e : Settings.LoadError}
    (hi : CommandLine.invoke files executeCommand.choices words = .ok i)
    (hc : configured files i = .error e) :
    execute fuel files words = some (executeCommand.reportOn "" (.error (settingsEnding e))) := by
  rw [← (emit_settingsLog i).1]
  simp only [execute, hi, fileSettings_eq, hc]
  rfl

theorem carryOut_showing (c : Command) (level : Level) (job : Job) :
    c.carryOut (.showing level) job =
      job.perform.map fun r => c.reportOn (Console.shown level r.2) r.1 := by
  unfold carryOut
  rcases job.perform with _ | ⟨answer, log⟩
  · rfl
  · simp [Console.emit_showing]

theorem executeJob_apply {settings : Settings} {path : File.Path} {log : Log} :
    executeJob fuel files settings path log =
      match Program.fetch files path with
      | .error e =>
        some (.error (loadEnding e), loadLog path (.error e) (log.push (.notice "INTMACHINE")))
      | .ok program =>
        conclude (printed fun values => Listing.print values ++ "\n")
          (announced fun trap => haltedOn trap.fault (toString trap.ip))
          (execution settings program fuel)
          (loadLog path (.ok program) (log.push (.notice "INTMACHINE"))) := by
  rw [executeJob_eq, Activity.bind_of_ok (Activity.report_apply _ _)]
  cases hfetch : Program.fetch files path with
  | error e =>
    refine Activity.bind_of_error ?_
    rw [loadProgram_eq, hfetch]
    rfl
  | ok program =>
    refine Activity.bind_of_ok ?_
    rw [loadProgram_eq, hfetch]
    rfl

end Command

end Intcode
