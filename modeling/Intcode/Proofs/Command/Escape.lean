import Intcode.Proofs.Command.Ending

/-!
# Files that no message is prepared for

Whatever the files hold, a command ends with a result, with a complaint about the command line or
with a failure that it has reported, except for two kinds of files: programs whose bytes are no
text, and settings that cannot be read. These escape.
-/

namespace Intcode

def Settings.LoadError.message? : Settings.LoadError → Option String
  | .unreadable _ => none
  | .mistake cause => some cause.message
  | .invalid cause => some cause.message

namespace Command

open CommandLine (Invocation Refusal)

inductive Tool where
  | executor
  | amplifier
  | assistant

namespace Tool

def command : Tool → Command
  | executor => executeCommand
  | amplifier => amplifyCommand
  | assistant => gravityCommand

def run : Tool → Nat → File.View → List String → Option Report
  | executor => execute
  | amplifier => amplify
  | assistant => gravity

/-- What has to be in order before a tool loads the program: there are settings, noun and verb are
given together. -/
def Accepts (files : File.View) (i : Invocation) : Tool → Prop
  | executor => ∃ given, configured files i = .ok given
  | amplifier => True
  | assistant => (i.integer? "noun").isSome = (i.integer? "verb").isSome

end Tool

variable {c : Command} {files : File.View} {words : List String} {i : Invocation} {t : Tool}
  {fuel : Nat} {r : Report} {path : File.Path} {level : Level} {log : Log}

/-- A result, a complaint about the command line, or a failure behind its reason. -/
inductive Handled (c : Command) : Report → Prop
  | result {output errors : String} : Handled c { exit := 0, output, errors }
  | usage {before : String} {e : CommandLine.UsageError} :
      Handled c { exit := 2, errors := before ++ c.complaint e }
  | failure {before : String} {exit : Exit} {event : Event} (hexit : exit ≠ .success)
      (hlevel : event.level ≠ .debug) :
      Handled c { exit := exit.code, errors := before ++ Console.line event }

/-- A file that the tool has to read and has no message for. -/
inductive Unforeseen (files : File.View) (i : Invocation) : Tool → Prop
  | program {t : Tool} (h : t.Accepts files i) (hread : ¬ Readable files (.ofString i.operand)) :
      Unforeseen files i t
  | settings {cause : File.Unreadable} (h : configured files i = .error (.unreadable cause)) :
      Unforeseen files i .executor

theorem Handled.escaped_eq_none (h : Handled c r) : r.escaped = none := by
  cases h with
  | result => rfl
  | usage => rfl
  | failure => rfl

theorem handled_complaint (e : CommandLine.UsageError) :
    Handled c { exit := 2, errors := c.complaint e } := by
  have h : Handled c { exit := 2, errors := "" ++ c.complaint e } := .usage
  rwa [String.empty_append] at h

theorem handled_refusal (refusal : Refusal) : Handled c (c.refusal refusal) := by
  cases refusal with
  | help => exact .result
  | wrong e => exact handled_complaint e

section Courses

theorem run_of_refused {refusal : Refusal}
    (h : CommandLine.invoke files t.command.choices words = .error refusal) :
    t.run fuel files words = some (t.command.refusal refusal) := by
  cases t with
  | executor =>
    rw [Tool.command] at h
    simp only [Tool.run, Tool.command, execute, h]
  | amplifier =>
    rw [Tool.command] at h
    simp only [Tool.run, Tool.command, amplify, h]
  | assistant =>
    rw [Tool.command] at h
    simp only [Tool.run, Tool.command, gravity, h]

theorem amplify_of_invoked (hi : CommandLine.invoke files amplifyCommand.choices words = .ok i) :
    amplify fuel files words = amplifyCommand.carryOut (.showing (least (i.has "verbose")))
      (amplifyJob fuel files (.ofString i.operand)
        ((i.phases? "phases").getD (defaultPhases (i.has "feedback"))) (i.has "feedback")) := by
  simp only [amplify, hi]

theorem gravity_of_invoked (hi : CommandLine.invoke files gravityCommand.choices words = .ok i) :
    gravity fuel files words = gravityCommand.carryOut (.showing (least (i.has "verbose")))
      (gravityJob fuel files (.ofString i.operand) (i.integer? "noun") (i.integer? "verb")
        ((i.integer? "target").getD Gravity.defaultTarget)
        ((i.integer? "limit").getD Gravity.defaultLimit)) := by
  simp only [gravity, hi]

theorem exists_noun_verb {noun verb : Option Int} (h : noun.isSome = verb.isSome) :
    ∃ pair? : Option (Int × Int), noun = pair?.map Prod.fst ∧ verb = pair?.map Prod.snd := by
  cases noun with
  | none =>
    cases verb with
    | none => exact ⟨none, rfl, rfl⟩
    | some verb => cases h
  | some noun =>
    cases verb with
    | none => cases h
    | some verb => exact ⟨some (noun, verb), rfl, rfl⟩

theorem gravityJob_of_unpaired {noun verb : Option Int} {target limit : Int}
    (h : noun.isSome ≠ verb.isSome) :
    gravityJob fuel files path noun verb target limit =
      (.report (.notice "INTMACHINE GRAVITY ASSIST") >>= fun _ =>
        .fail (.usage (.unpaired "--noun" "--verb"))) := by
  cases noun with
  | none =>
    cases verb with
    | none => exact absurd rfl h
    | some verb => rfl
  | some noun =>
    cases verb with
    | none => rfl
    | some verb => exact absurd rfl h

theorem Tool.Accepts.course (h : t.Accepts files i)
    (hi : CommandLine.invoke files t.command.choices words = .ok i) :
    ∃ (level : Level) (job : Nat → Job), (∀ fuel, t.run fuel files words =
        t.command.carryOut (.showing level) (job fuel)) ∧
      ∀ fuel, Tells level files (.ofString i.operand) (job fuel) := by
  cases t with
  | executor =>
    obtain ⟨given, hc⟩ := h
    exact ⟨_, _, fun fuel => execute_of_configured hi hc, fun fuel => tells_executeJob⟩
  | amplifier =>
    exact ⟨_, _, fun fuel => amplify_of_invoked hi, fun fuel => tells_amplifyJob⟩
  | assistant =>
    obtain ⟨pair?, hnoun, hverb⟩ := exists_noun_verb h
    refine ⟨_, _, fun fuel => gravity_of_invoked hi, fun fuel => ?_⟩
    rw [hnoun, hverb]
    exact tells_gravityJob (rank_least _) pair?

theorem unforeseen_iff_of_accepts (h : t.Accepts files i) :
    Unforeseen files i t ↔ ¬ Readable files (.ofString i.operand) := by
  constructor
  · intro hu
    cases hu with
    | program _ hread => exact hread
    | settings hc =>
      obtain ⟨given, hgiven⟩ := h
      rw [hc] at hgiven
      cases hgiven
  · exact .program h

theorem execute_of_message {e : Settings.LoadError} {text : String}
    (hi : CommandLine.invoke files executeCommand.choices words = .ok i)
    (hc : configured files i = .error e) (hm : e.message? = some text) :
    execute fuel files words =
      some { exit := 2, errors := executeCommand.complaint (.badSettings text) } := by
  rw [execute_of_misconfigured hi hc]
  cases e with
  | unreadable cause => cases hm
  | mistake cause =>
    cases hm
    simp only [settingsEnding, reportOn, String.empty_append]
  | invalid cause =>
    cases hm
    simp only [settingsEnding, reportOn, String.empty_append]

def Accounts (files : File.View) (i : Invocation) (t : Tool) (r : Report) : Prop :=
  (Unforeseen files i t ∧ r.escaped ≠ none) ∨ (¬ Unforeseen files i t ∧ Handled t.command r)

theorem accounts_of_misconfigured {e : Settings.LoadError}
    (hi : CommandLine.invoke files executeCommand.choices words = .ok i)
    (hc : configured files i = .error e) (hr : execute fuel files words = some r) :
    Accounts files i .executor r := by
  cases hm : e.message? with
  | some text =>
    rw [execute_of_message hi hc hm] at hr
    cases hr
    refine Or.inr ⟨fun hu => ?_, handled_complaint _⟩
    cases hu with
    | program h _ =>
      obtain ⟨given, hgiven⟩ := h
      rw [hc] at hgiven
      cases hgiven
    | settings h =>
      rw [hc] at h
      cases h
      cases hm
  | none =>
    rw [execute_of_misconfigured hi hc] at hr
    cases hr
    cases e with
    | unreadable cause => exact Or.inl ⟨.settings hc, by simp [settingsEnding, reportOn]⟩
    | mistake cause => cases hm
    | invalid cause => cases hm

theorem accounts_of_unpaired (h : ¬ Tool.assistant.Accepts files i)
    (hi : CommandLine.invoke files gravityCommand.choices words = .ok i)
    (hr : gravity fuel files words = some r) : Accounts files i .assistant r := by
  rw [gravity_of_invoked hi, gravityJob_of_unpaired h, carryOut_showing] at hr
  cases hr
  refine Or.inr ⟨fun hu => ?_, .usage⟩
  cases hu with
  | program haccepts _ => exact h haccepts

theorem fetch_of_not_readable (h : ¬ Readable files path) :
    Program.fetch files path = .error (.unreadable .undecodable) := by
  unfold Readable at h
  rw [Program.fetch, Classical.not_not.mp h]

theorem handled_of_told {ending : Ending} (h : Told level files path ending log)
    (hread : Readable files path) :
    Handled c (c.reportOn (Console.shown level log) (.error ending)) := by
  cases h with
  | reason hexit hlevel hshown =>
    rw [Console.shown_push hshown]
    exact .failure hexit hlevel
  | garbled hno => exact absurd hread hno

theorem accounts_of_accepts (h : t.Accepts files i)
    (hi : CommandLine.invoke files t.command.choices words = .ok i)
    (hr : t.run fuel files words = some r) : Accounts files i t r := by
  obtain ⟨level, job, hrun, hjob⟩ := h.course hi
  rw [hrun, carryOut_showing] at hr
  obtain ⟨⟨answer, log⟩, hanswer, rfl⟩ := Option.map_eq_some_iff.mp hr
  unfold Accounts
  rw [unforeseen_iff_of_accepts h]
  by_cases hread : Readable files (.ofString i.operand)
  · refine Or.inr ⟨Classical.not_not.mpr hread, ?_⟩
    cases answer with
    | ok output => exact .result
    | error ending => exact handled_of_told ((hjob fuel).fails _ _ _ hanswer) hread
  · -- The job ends as the loading does, and that escapes.
    obtain ⟨before, hlost⟩ := (hjob fuel).loses (fetch_of_not_readable hread) #[]
    rw [Activity.perform, hlost] at hanswer
    cases hanswer
    exact Or.inl ⟨hread, by simp [reportOn, loadEnding, Program.LoadError.message?]⟩

theorem accounts_of_invoked (hi : CommandLine.invoke files t.command.choices words = .ok i)
    (hr : t.run fuel files words = some r) : Accounts files i t r := by
  by_cases h : t.Accepts files i
  · exact accounts_of_accepts h hi hr
  · cases t with
    | executor =>
      cases hc : configured files i with
      | ok given => exact absurd ⟨given, hc⟩ h
      | error e => exact accounts_of_misconfigured hi hc hr
    | amplifier => exact absurd trivial h
    | assistant => exact accounts_of_unpaired h hi hr

theorem Accounts.handled_iff (h : Accounts files i t r) :
    (Handled t.command r ↔ ¬ Unforeseen files i t) ∧
      (r.escaped = none ↔ ¬ Unforeseen files i t) := by
  obtain ⟨hu, hescaped⟩ | ⟨hno, hhandled⟩ := h
  · have hunhandled : ¬ Handled t.command r := fun hh => hescaped hh.escaped_eq_none
    simp [hu, hescaped, hunhandled]
  · simp [hno, hhandled, hhandled.escaped_eq_none]

theorem run_of_unloadable {e : Program.LoadError} {text : String} (h : t.Accepts files i)
    (hi : CommandLine.invoke files t.command.choices words = .ok i)
    (hfetch : Program.fetch files (.ofString i.operand) = .error e)
    (hm : e.message? = some text) :
    ∃ before, t.run fuel files words = some
      { exit := 1
        errors := before ++ Console.line
          (.failure ("Cannot load " ++ (File.Path.ofString i.operand).text ++ ": " ++ text)) } := by
  obtain ⟨level, job, hrun, hjob⟩ := h.course hi
  obtain ⟨before, hlost⟩ := (hjob fuel).loses hfetch #[]
  rw [loadEnding_of_message hm, loadLog_of_message hm] at hlost
  rw [hrun, carryOut_showing, Activity.perform, hlost, Option.map_some,
    Console.shown_push (Console.rank_le_error level)]
  exact ⟨_, rfl⟩

end Courses

/-- How the tools deal with files. A command line that is refused is complained about. Otherwise the
matter is handled, and nothing escapes, exactly when no unforeseen file is read. In particular the
message for a program that cannot be loaded and the complaint about settings are as they should be. -/
theorem handled_iff_foreseen (t : Tool) (files : File.View) (words : List String) (fuel : Nat) :
    (∀ refusal, CommandLine.invoke files t.command.choices words = .error refusal →
      ∃ r, t.run fuel files words = some r ∧ Handled t.command r) ∧
    ∀ i, CommandLine.invoke files t.command.choices words = .ok i →
      (∀ r, t.run fuel files words = some r →
        (Handled t.command r ↔ ¬ Unforeseen files i t) ∧
          (r.escaped = none ↔ ¬ Unforeseen files i t)) ∧
      (∀ e text, t.Accepts files i → Program.fetch files (.ofString i.operand) = .error e →
        e.message? = some text →
        ∃ before, t.run fuel files words = some
          { exit := 1
            errors := before ++ Console.line
              (.failure ("Cannot load " ++ (File.Path.ofString i.operand).text ++ ": " ++ text)) }) ∧
      ∀ e text, t = .executor → configured files i = .error e → e.message? = some text →
        t.run fuel files words =
          some { exit := 2, errors := t.command.complaint (.badSettings text) } := by
  refine ⟨?_, fun i hi => ⟨?_, ?_, ?_⟩⟩
  · intro refusal hrefusal
    exact ⟨_, run_of_refused hrefusal, handled_refusal refusal⟩
  · intro r hr
    exact (accounts_of_invoked hi hr).handled_iff
  · intro e text haccepts hfetch hm
    exact run_of_unloadable haccepts hi hfetch hm
  · rintro e text rfl hc hm
    exact execute_of_message hi hc hm

theorem handled_iff_foreseen_missing :
    let files : File.View := ⟨fun written =>
      if written = "s" then .ok (.file "machine = 1\n".toUTF8) else .error .missing⟩
    (∃ before, amplify 0 files ["m"] = some
      { exit := 1
        errors := before ++ ("ERROR:root:Cannot load m: " ++
          "[Errno 2] No such file or directory: \u0027m\u0027\n") }) ∧
      (∀ r, amplify 0 files ["m"] = some r → Handled amplifyCommand r) ∧
      execute 0 files ["-c", "s", "m"] = some
        { exit := 2
          errors := executeCommand.complaint
            (.badSettings "Machine settings must be a table, got 1") } := by
  intro files
  have hread : files.readText (.ofString "m") = .error (.unopened .missing (.ofString "m")) := rfl
  have hi : CommandLine.invoke files amplifyCommand.choices ["m"] = .ok ⟨[], "m"⟩ :=
    invoke_eq_ok (by decide +kernel)
  have hj : CommandLine.invoke files executeCommand.choices ["-c", "s", "m"] =
      .ok ⟨[("config", .path "s")], "m"⟩ := invoke_eq_ok (by decide +kernel)
  have hbad : (match configured files ⟨[("config", .path "s")], "m"⟩ with
      | .error e => e.message?
      | .ok _ => none) = some "Machine settings must be a table, got 1" := by decide +kernel
  obtain ⟨hhandled, hmissing, -⟩ := (handled_iff_foreseen .amplifier files ["m"] 0).2 _ hi
  obtain ⟨-, -, hcomplaint⟩ :=
    (handled_iff_foreseen .executor files ["-c", "s", "m"] 0).2 _ hj
  refine ⟨?_, ?_, ?_⟩
  · have hfetch : Program.fetch files (.ofString "m") =
        .error (.unreadable (.unopened .missing (.ofString "m"))) := rfl
    have hline : Console.line (.failure ("Cannot load " ++ (File.Path.ofString "m").text ++ ": " ++
        File.openFailure .missing (.ofString "m"))) = "ERROR:root:Cannot load m: " ++
          "[Errno 2] No such file or directory: \u0027m\u0027\n" := by decide +kernel
    rw [← hline]
    exact hmissing _ _ trivial hfetch rfl
  · intro r hr
    refine (hhandled r hr).1.mpr fun hu => ?_
    cases hu with
    | program _ hgarbled => exact hgarbled (by simp [Readable, hread])
  · cases hc : configured files ⟨[("config", .path "s")], "m"⟩ with
    | ok given =>
      rw [hc] at hbad
      cases hbad
    | error e =>
      rw [hc] at hbad
      exact hcomplaint e _ rfl hc hbad

theorem not_handled_garbled :
    let files : File.View := ⟨fun written =>
      if written = "p" then .ok (.file ⟨#[0xff]⟩)
      else if written = "d" then .ok .folder
      else .error .missing⟩
    execute 0 files ["p"] = some
        { exit := 1, errors := "INFO:root:INTMACHINE\n", escaped := some .undecodable } ∧
      amplify 0 files ["p"] = some
        { exit := 1, errors := "INFO:root:INTMACHINE AMPLIFIERS\n",
          escaped := some .undecodable } ∧
      gravity 0 files ["p"] = some
        { exit := 1, errors := "INFO:root:INTMACHINE GRAVITY ASSIST\n",
          escaped := some .undecodable } ∧
      execute 0 files ["-c", "d", "p"] = some
        { exit := 1, escaped := some (.unopened .isFolder (.ofString "d")) } := by
  decide +kernel

end Command

end Intcode
