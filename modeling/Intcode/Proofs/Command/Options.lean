import Intcode.Proofs.Command.Configuration
import Intcode.Proofs.Machine.Tracing

/-!
# Options and the file of settings

The exit code and the text on standard output depend on the command line and on the file of
settings through two things only: the inputs, and whether the memory is dumped.
-/

namespace Intcode

namespace Machine

theorem answer_execute (fuel : Nat) (program : Memory) (inputs : List Int) (dump trace : Bool) :
    (execute fuel program inputs dump trace).map Prod.snd =
      ((start program inputs false).runToCompletion fuel dump).map Prod.snd := by
  have hsame : SameState (start program inputs trace) (start program inputs false) := ⟨rfl⟩
  simp only [execute_eq_map, runToCompletion_eq_map, Option.map_map]
  refine (lockstep_sameState.proceed hsame).map_eq fun h => ?_
  simp only [Function.comp_apply, h.reply, result, h.kept.toState]

end Machine

namespace Command

open CommandLine (Invocation)

variable {files : File.View} {words : List String} {i : Invocation} {given : Settings.Given}
  {settings : Settings} {path : File.Path} {fuel : Nat}

def outcome (r : Report) : Nat × String := (r.exit, r.output)

def verdict : Except Trap (List Int) → Nat × String
  | .ok values => (0, Listing.print values ++ "\n")
  | .error _ => (100, "")

/-- Loads the program in a file and runs it with these inputs. -/
def plainRun (fuel : Nat) (files : File.View) (path : File.Path) (inputs : List Int)
    (dump : Bool) : Option (Nat × String) :=
  match Program.fetch files path with
  | .error _ => some (1, "")
  | .ok program =>
    ((Machine.start program inputs false).runToCompletion fuel dump).map fun r => verdict r.2

theorem outcome_executeJob (c : Command) (level : Level) :
    (c.carryOut (.showing level) (executeJob fuel files settings path)).map outcome =
      plainRun fuel files path settings.inputs settings.dumpMemory := by
  rw [carryOut_showing, Activity.perform, executeJob_apply, plainRun]
  cases Program.fetch files path with
  | error e =>
    cases h : e.message? <;> simp [loadEnding, h, reportOn, outcome, Exit.code]
  | ok program =>
    have hanswer := Machine.answer_execute fuel program settings.inputs settings.dumpMemory
      settings.trace
    have hverdict := congrArg (Option.map verdict) hanswer
    rw [Option.map_map, Option.map_map] at hverdict
    refine Eq.trans ?_ hverdict
    simp only [conclude, execution, Option.map_map]
    congr 1
    funext r
    rcases r with ⟨m, trap | values⟩ <;> rfl

theorem outcome_execute (hi : CommandLine.invoke files executeCommand.choices words = .ok i)
    (hc : configured files i = .ok given) :
    (execute fuel files words).map outcome =
      plainRun fuel files (.ofString i.operand) (inputsOf given i) (dumpOf given i) := by
  rw [execute_of_configured hi hc, outcome_executeJob, effective_inputs, effective_dumpMemory]

/-- Whatever the command line and the file of settings, the outcome is that of the program run with
the inputs and the kind of output they ask for. Two ways to ask for the same have the same outcome,
and verbosity and tracing play no part. -/
theorem options_combine (files : File.View) (fuel : Nat) :
    (∀ words i given, CommandLine.invoke files executeCommand.choices words = .ok i →
      configured files i = .ok given →
      (execute fuel files words).map outcome =
        plainRun fuel files (.ofString i.operand) (inputsOf given i) (dumpOf given i)) ∧
    ∀ words words' i i' given given',
      CommandLine.invoke files executeCommand.choices words = .ok i →
      CommandLine.invoke files executeCommand.choices words' = .ok i' →
      configured files i = .ok given → configured files i' = .ok given' →
      i.operand = i'.operand → inputsOf given i = inputsOf given' i' →
      dumpOf given i = dumpOf given' i' →
      (execute fuel files words).map outcome = (execute fuel files words').map outcome := by
  constructor
  · intro words i given hi hc
    exact outcome_execute hi hc
  · intro words words' i i' given given' hi hi' hc hc' hoperand hinputs hdump
    rw [outcome_execute hi hc, outcome_execute hi' hc', hoperand, hinputs, hdump]

theorem options_combine_dump :
    let files : File.View := ⟨fun written =>
      if written = "p" then .ok (.file "3,0,99".toUTF8)
      else if written = "s" then
        .ok (.file "[machine]\ninputs = [7]\ndump_memory = true\n".toUTF8)
      else .error .missing⟩
    (execute 2 files ["-c", "s", "p"]).map outcome = some (0, "7,0,99\n") ∧
      (execute 2 files ["-c", "s", "p"]).map outcome =
        (execute 2 files ["-v", "-i7", "--dump", "p"]).map outcome := by
  intro files
  obtain ⟨hrun, hsame⟩ := options_combine files 2
  have hi : CommandLine.invoke files executeCommand.choices ["-c", "s", "p"] =
      .ok ⟨[("config", .path "s")], "p"⟩ := invoke_eq_ok (by decide +kernel)
  have hi' : CommandLine.invoke files executeCommand.choices ["-v", "-i7", "--dump", "p"] =
      .ok ⟨[("verbose", .on), ("input", .integers [7]), ("dump", .on)], "p"⟩ :=
    invoke_eq_ok (by decide +kernel)
  have htext : files.readText (.ofString "s") =
      .ok "[machine]\ninputs = [7]\ndump_memory = true\n".toList := rfl
  have hc : configured files ⟨[("config", .path "s")], "p"⟩ =
      .ok { inputs := some [7], dumpMemory := some true } :=
    configured_of_text rfl htext (by decide +kernel)
  constructor
  · rw [hrun _ _ _ hi hc]
    decide +kernel
  · exact hsame _ _ _ _ _ _ hi hi' hc rfl rfl rfl rfl

end Command

end Intcode
