import Intcode.Command.Amplify
import Intcode.Command.Execute
import Intcode.Command.Gravity
import Intcode.Proofs.Command.Loading
import Intcode.Proofs.Gravity.Search

/-!
# Jobs

Every command announces itself, loads its program and concludes with some work on it. How it exits
is then a matter of whether the program loads and of what the work settles on.
-/

namespace Intcode.Command

theorem invoke_eq_ok {x : Except CommandLine.Refusal CommandLine.Invocation}
    {settings : List (String × CommandLine.Setting)} {operand : String}
    (h : x.toOption.map (fun i => (i.settings, i.operand)) = some (settings, operand)) :
    x = .ok ⟨settings, operand⟩ := by
  cases x with
  | error refusal => cases h
  | ok i =>
    cases h
    rfl

variable {c : Command} {console : Console} {job : Nat → Job} {exit : Nat} {output : String}
  {files : File.View} {path : File.Path} {program : Memory}

section Conclusion

variable {ε α : Type} {work : Nat → Activity ε α} {f : Except ε α → Except Ending String}
  {g : Except ε α → Log → Log} {text : α → String}

def conclude (f : Except ε α → Except Ending String) (g : Except ε α → Log → Log)
    (work : Activity ε α) : Job :=
  fun log => (work log).map fun r => (f r.1, g r.1 r.2)

def printed (text : α → String) : Except ε α → Except Ending String
  | .ok a => .ok (text a)
  | .error _ => .error (.exit .executionError)

def announced (message : ε → String) : Except ε α → Log → Log
  | .ok _, log => log
  | .error e, log => log.push (.failure (message e))

end Conclusion

def execution (settings : Settings) (program : Memory) (fuel : Nat) : Activity Trap (List Int) :=
  fun log => (Machine.execute fuel program settings.inputs settings.dumpMemory settings.trace).map
    fun r => (r.2, log ++ r.1.journal)

theorem executeJob_eq (fuel : Nat) (files : File.View) (settings : Settings) (path : File.Path) :
    executeJob fuel files settings path =
      (.report (.notice "INTMACHINE") >>= fun _ => loadProgram files path >>= fun program =>
        conclude (printed fun values => Listing.print values ++ "\n")
          (announced fun trap => haltedOn trap.fault (toString trap.ip))
          (execution settings program fuel)) := by
  unfold executeJob
  congr 1
  funext _
  congr 1
  funext program log
  simp only [conclude, execution]
  rcases Machine.execute fuel program settings.inputs settings.dumpMemory settings.trace with
    _ | ⟨m, trap | values⟩ <;> rfl

theorem amplifyJob_eq (fuel : Nat) (files : File.View) (path : File.Path) (phases : List Int)
    (feedback : Bool) :
    amplifyJob fuel files path phases feedback =
      (.report (.notice "INTMACHINE AMPLIFIERS") >>= fun _ => loadProgram files path >>= fun program =>
        conclude (printed fun best : Amplifier.Best => "Max signal: " ++ toString best.signal ++
            "\nPhases: " ++ Listing.print best.ordering ++ "\n")
          (announced fun failure => "Amplifier failure: " ++ failure.message)
          (Amplifier.search fuel program phases feedback)) := by
  unfold amplifyJob
  congr 1
  funext _
  congr 1
  funext program log
  refine (Activity.bind_apply _ _ log).trans ?_
  simp only [conclude]
  rcases Amplifier.search fuel program phases feedback log with _ | ⟨failure | best, log'⟩ <;> rfl

theorem message?_of_fault {failure : Gravity.Failure} {fault : Fault}
    (h : failure.fault? = some fault) : ∃ text, failure.message? = some text := by
  cases failure with
  | unpatchable fault => exact ⟨_, rfl⟩
  | trapped trap => exact ⟨_, rfl⟩
  | noResult => cases h

def assistFailure (failure : Gravity.Failure) : String :=
  -- A failure without a fault has no text, and no run ends with one.
  failure.message?.getD ""

theorem orGiveUp_bind_eq {α : Type} {work : Activity Gravity.Failure α} (f : α → Job) {log : Log}
    (hwork : ∀ failure log', work log = some (.error failure, log') →
      ∃ fault, failure.fault? = some fault) :
    (orGiveUp work >>= f) log =
      match work log with
      | none => none
      | some (.error failure, log) =>
        some (.error (.exit .executionError), log.push (.failure (assistFailure failure)))
      | some (.ok a, log) => f a log := by
  refine (Activity.bind_apply _ _ log).trans ?_
  simp only [orGiveUp]
  rcases hrun : work log with _ | ⟨failure | a, log'⟩
  · rfl
  · obtain ⟨fault, hfault⟩ := hwork failure log' hrun
    obtain ⟨text, htext⟩ := message?_of_fault hfault
    simp only [htext, assistFailure, Option.getD_some]
    rfl
  · rfl

def pairPrinted : Except Gravity.Failure (Option (Int × Int)) → Except Ending String
  | .ok (some (noun, verb)) => .ok (pairText noun verb)
  | .ok none => .error (.exit .notFound)
  | .error _ => .error (.exit .executionError)

def pairAnnounced (target limit : Int) : Except Gravity.Failure (Option (Int × Int)) → Log → Log
  | .ok (some _), log => log
  | .ok none, log => log.push
      (.notice ("No noun and verb up to " ++ toString limit ++ " produce " ++ toString target))
  | .error failure, log => log.push (.failure (assistFailure failure))

theorem pairJob_eq (fuel : Nat) (files : File.View) (path : File.Path) (noun verb : Int) :
    pairJob fuel files path noun verb =
      (loadPatchable files path >>= fun program =>
        conclude (printed fun value => toString value ++ "\n") (announced assistFailure)
          (Gravity.runWith fuel program noun verb)) := by
  unfold pairJob
  congr 1
  funext program log
  refine (orGiveUp_bind_eq _ fun _ _ hrun => Gravity.exists_fault hrun).trans ?_
  simp only [conclude]
  rcases Gravity.runWith fuel program noun verb log with _ | ⟨failure | value, log'⟩ <;> rfl

theorem searchJob_eq (fuel : Nat) (files : File.View) (path : File.Path) (target limit : Int) :
    searchJob fuel files path target limit =
      (loadPatchable files path >>= fun program =>
        conclude pairPrinted (pairAnnounced target limit)
          (Gravity.find fuel program target limit)) := by
  unfold searchJob
  congr 1
  funext program log
  refine (orGiveUp_bind_eq _ fun _ _ hrun => absurd hrun Gravity.find_ne_error).trans ?_
  simp only [conclude]
  rcases Gravity.find fuel program target limit log with _ | ⟨failure | _ | ⟨noun, verb⟩, log'⟩ <;> rfl

def checkSize (program : Memory) : Activity Ending Memory :=
  if program.size ≤ 2 then
    Job.giveUp ("Program is too short to patch, " ++ toString program.size ++ " cells") .loadError
  else
    return program

end Intcode.Command
