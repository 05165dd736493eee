import Intcode.Proofs.Command.Ending

/-!
# Verbosity

Which events of a run appear on standard error. The level follows the settings as long as no file
of settings is named; with such a file the console has been settled on errors before the settings
are known.
-/

namespace Intcode.Command

open CommandLine (Invocation)

variable {files : File.View} {words : List String} {i : Invocation} {given : Settings.Given}
  {settings : Settings} {path : File.Path} {fuel : Nat} {log log' : Log}
  {answer : Except Ending String}

theorem prefix_push (log : Log) (event : Event) : log.toList <+: (log.push event).toList := by
  rw [Array.toList_push]
  exact List.prefix_append _ _

theorem prefix_loadLog (path : File.Path) (result : Except Program.LoadError Memory) (log : Log) :
    log.toList <+: (loadLog path result log).toList := by
  have hbegun := prefix_push log (.loadingProgram path.text)
  cases result with
  | ok program => exact hbegun.trans (prefix_push _ _)
  | error e =>
    cases h : e.message? with
    | none =>
      rw [loadLog_of_none h]
      exact hbegun
    | some text =>
      rw [loadLog_of_message h]
      exact hbegun.trans (prefix_push _ _)

theorem prefix_executeJob (h : executeJob fuel files settings path log = some (answer, log')) :
    (log.push (.notice "INTMACHINE")).toList <+: log'.toList := by
  rw [executeJob_apply] at h
  have hload := prefix_loadLog path (Program.fetch files path) (log.push (.notice "INTMACHINE"))
  cases hfetch : Program.fetch files path with
  | error e =>
    rw [hfetch] at h hload
    cases h
    exact hload
  | ok program =>
    rw [hfetch] at h hload
    obtain ⟨⟨result, after⟩, hrun, hend⟩ := Option.map_eq_some_iff.mp h
    obtain ⟨⟨m, reply⟩, -, hlog⟩ := Option.map_eq_some_iff.mp hrun
    cases hlog
    cases hend
    have hafter := hload.trans (List.prefix_append _ m.journal.toList)
    rw [← Array.toList_append] at hafter
    cases reply with
    | ok values => exact hafter
    | error trap => exact hafter.trans (prefix_push _ _)

theorem visible_of_prefix {least : Level} (hrank : least.rank ≤ Level.info.rank)
    (h : (#[.notice "INTMACHINE"] : Log).toList <+: log.toList) :
    ∃ events, Console.visible least log = .notice "INTMACHINE" :: events := by
  obtain ⟨rest, hrest⟩ := h
  have hshown : least.rank ≤ (Event.notice "INTMACHINE").level.rank := hrank
  exact ⟨rest.filter _, by simp [Console.visible, ← hrest, hshown]; rfl⟩

theorem errors_reportOn_of_told {level : Level} {ending : Ending} (c : Command) (before : String)
    (h : Told level files path ending log) : (c.reportOn before (.error ending)).errors = before := by
  cases h with
  | reason => rfl
  | garbled => rfl

theorem errors_reportOn (c : Command) (before : String)
    (h : (executeJob fuel files settings path).perform = some (answer, log)) :
    (c.reportOn before answer).errors = before := by
  cases answer with
  | ok text => rfl
  | error ending =>
    have htells : Tells .error files path (executeJob fuel files settings path) := tells_executeJob
    exact errors_reportOn_of_told c before (htells.fails _ _ _ h)

def levelOf (given : Settings.Given) (i : Invocation) : Level :=
  if (i.has "verbose" || given.verbose.getD false) || (i.has "trace" || given.trace.getD false)
  then .debug else .info

theorem wanted_effective (given : Settings.Given) (i : Invocation) :
    wanted (effective given i) = levelOf given i := by
  rw [wanted, effective_verbose, effective_trace]
  rfl

/-- What a run reports is shown from the level on that has been asked for if no file of settings is
named. With such a file, whatever it says, errors are shown and nothing else; that is never what has
been asked for. -/
theorem shown_as_asked_iff
    (hi : CommandLine.invoke files executeCommand.choices words = .ok i)
    (hc : configured files i = .ok given)
    (hrun : (executeJob fuel files (effective given i) (.ofString i.operand)).perform =
      some (answer, log)) :
    ∃ r, execute fuel files words = some r ∧
      (r.errors = Console.shown (levelOf given i) log ↔ i.path? "config" = none) ∧
      (i.path? "config" ≠ none → r.errors = Console.shown .error log) := by
  have hreport : execute fuel files words = _ := execute_of_configured hi hc
  rw [carryOut_showing, hrun] at hreport
  refine ⟨_, hreport, ?_⟩
  rw [errors_reportOn _ _ hrun, ← wanted_effective]
  unfold threshold
  cases i.path? "config" with
  | none => simp
  | some written =>
    -- The announcement has been asked for and is no error.
    obtain ⟨events, hvisible⟩ := visible_of_prefix
      (rank_least ((effective given i).verbose || (effective given i).trace))
      (prefix_executeJob hrun)
    have hne := Console.shown_ne_shown_error hvisible (by decide)
    exact ⟨⟨fun heq => absurd heq.symm hne, fun hnone => absurd hnone (by simp)⟩, fun _ => rfl⟩

theorem shown_as_asked_halting :
    let files : File.View :=
      ⟨fun written => if written = "p" then .ok (.file "99".toUTF8) else .error .missing⟩
    ∃ r, execute 1 files ["-v", "p"] = some r ∧
      r.errors = "INFO:root:INTMACHINE\nDEBUG:root:Loading program p\n" ++
        "DEBUG:root:Loaded 1 cells\nINFO:root:Machine halted at IP:0\n" := by
  intro files
  have hi : CommandLine.invoke files executeCommand.choices ["-v", "p"] =
      .ok ⟨[("verbose", .on)], "p"⟩ := invoke_eq_ok (by decide +kernel)
  have hlog : (executeJob 1 files (effective {} ⟨[("verbose", .on)], "p"⟩)
      (.ofString "p")).perform.map Prod.snd = some #[.notice "INTMACHINE", .loadingProgram "p",
        .loadedProgram 1, .halted 0] := by decide +kernel
  obtain ⟨⟨answer, log⟩, hrun, rfl⟩ := Option.map_eq_some_iff.mp hlog
  obtain ⟨r, hr, hshown, -⟩ := shown_as_asked_iff hi rfl hrun
  exact ⟨r, hr, (hshown.mpr rfl).trans (by decide +kernel)⟩

theorem not_shown_as_asked :
    let files : File.View := ⟨fun written =>
      if written = "p" then .ok (.file "99".toUTF8)
      else if written = "s" then .ok (.file "[machine]\nverbose = true\n".toUTF8)
      else .error .missing⟩
    ∃ i given, CommandLine.invoke files executeCommand.choices ["-c", "s", "p"] = .ok i ∧
      configured files i = .ok given ∧ levelOf given i = .debug ∧
      (executeJob 1 files (effective given i) (.ofString i.operand)).perform.map
        (fun r => Console.shown .debug r.2) = some ("INFO:root:INTMACHINE\n" ++
          "DEBUG:root:Loading program p\nDEBUG:root:Loaded 1 cells\n" ++
          "INFO:root:Machine halted at IP:0\n") ∧
      (execute 1 files ["-c", "s", "p"]).map Report.errors = some "" := by
  intro files
  have hi : CommandLine.invoke files executeCommand.choices ["-c", "s", "p"] =
      .ok ⟨[("config", .path "s")], "p"⟩ := invoke_eq_ok (by decide +kernel)
  have htext : files.readText (.ofString "s") = .ok "[machine]\nverbose = true\n".toList := rfl
  have hc : configured files ⟨[("config", .path "s")], "p"⟩ = .ok { verbose := some true } :=
    configured_of_text rfl htext (by decide +kernel)
  refine ⟨_, _, hi, hc, rfl, ?_, ?_⟩
  · decide +kernel
  · decide +kernel

end Intcode.Command
