import Intcode.Proofs.Activity
import Intcode.Proofs.Settings.Table
import Mathlib.Data.List.Induction

/-!
# Loading settings

Loading checks all of a file before it changes the first setting. To say what this rules out, it is
carried out here a second time on settings that are changed one by one, with nothing undone when a
check fails; the two ways agree. Main statement: a file is taken over entry by entry when all of it
fits and changes nothing otherwise, so that after any changes every setting has the value that was
given last.
-/

namespace Intcode

open Toml (Entries)

namespace Settings

def fetch (files : File.View) (path : File.Path) : Except LoadError Given :=
  match files.readText path with
  | .error cause => .error (.unreadable cause)
  | .ok text => ofText text

theorem load_eq {files : File.View} {path : File.Path} {s : Settings} {log : Log} :
    load files path s log =
      some ((fetch files path).map s.update, log.push (.loadingSettings path.text)) := by
  unfold load fetch
  cases files.readText path with
  | error cause => rfl
  | ok text =>
    show _ = some ((ofText text).map s.update, log.push (.loadingSettings path.text))
    refine (Activity.bind_of_ok (Activity.report_apply _ _)).trans ?_
    refine (Activity.bind_of_ok (Activity.ofExcept_apply _ _)).trans ?_
    cases ofText text <;> rfl

theorem fetch_of_text {files : File.View} {path : File.Path} {text : List Char} {given : Given}
    (htext : files.readText path = .ok text) (h : (ofText text).toOption = some given) :
    fetch files path = .ok given := by
  simp only [fetch, htext]
  cases hof : ofText text with
  | error e => rw [hof] at h; cases h
  | ok g => rw [hof] at h; cases h; rfl

/-- A file that can be read, decoded and parsed, with this table of settings. -/
def Holds (files : File.View) (path : File.Path) (t : Entries) : Prop :=
  ∃ text document, files.readText path = .ok text ∧ Toml.read text = .ok document ∧
    MachineTable document t

variable {t : Entries} {given : Given} {files : File.View} {path : File.Path}
  {s : Settings} {α : Type}

theorem ofText_eq_ok_iff {text : List Char} :
    ofText text = .ok given ↔ ∃ document, Toml.read text = .ok document ∧
      ofDocument document = .ok given := by
  unfold ofText
  rcases Toml.read text with cause | document
  · simp
  · cases ho : ofDocument document <;> simp [Except.mapError, ho]

theorem fetch_eq_ok_iff :
    fetch files path = .ok given ↔ ∃ t, Holds files path t ∧ Spells t given := by
  have hfetch : fetch files path = .ok given ↔ ∃ text, files.readText path = .ok text ∧
      ofText text = .ok given := by
    unfold fetch
    cases files.readText path <;> simp
  simp only [hfetch, ofText_eq_ok_iff, ofDocument_eq_ok_iff, Holds]
  constructor
  · rintro ⟨text, htext, document, hdocument, t, ht, hgiven⟩
    exact ⟨t, ⟨text, document, htext, hdocument, ht⟩, hgiven⟩
  · rintro ⟨t, ⟨text, document, htext, hdocument, ht⟩, hgiven⟩
    exact ⟨text, htext, document, hdocument, t, ht, hgiven⟩

/-- Changes to settings. What has been changed stays changed when a mistake is met later. -/
abbrev Editing := EStateM LoadError Settings

namespace Editing

def check {α : Type} : Except LoadError α → Editing α
  | .ok a => pure a
  | .error e => throw e

def assign {α : Type} (change : α → Settings → Settings) : Option α → Editing Unit
  | none => pure ()
  | some a => modify (change a)

def update (given : Given) : Editing Unit := do
  assign (fun verbose s => { s with verbose }) given.verbose
  assign (fun trace s => { s with trace }) given.trace
  assign (fun dumpMemory s => { s with dumpMemory }) given.dumpMemory
  assign (fun inputs s => { s with inputs }) given.inputs

def load (files : File.View) (path : File.Path) : Editing Unit := do
  let text ← check ((files.readText path).mapError .unreadable)
  let document ← check ((Toml.read text).mapError .mistake)
  let t ← check ((machineTable document).mapError .invalid)
  check ((checkNames t).mapError .invalid)
  let verbose ← check ((boolean? t "verbose").mapError .invalid)
  let trace ← check ((boolean? t "trace").mapError .invalid)
  let dumpMemory ← check ((boolean? t "dump_memory").mapError .invalid)
  let inputs ← check ((inputs? t).mapError .invalid)
  update { verbose, trace, dumpMemory, inputs }

def answer : EStateM.Result LoadError Settings Unit → Except LoadError Settings
  | .ok _ s => .ok s
  | .error e _ => .error e

def settings : EStateM.Result LoadError Settings Unit → Settings
  | .ok _ s | .error _ s => s

theorem run_update (given : Given) (s : Settings) :
    (update given).run s = .ok () (s.update given) := by
  obtain ⟨verbose, trace, dumpMemory, inputs⟩ := given
  cases verbose <;> cases trace <;> cases dumpMemory <;> cases inputs <;> rfl

theorem check_mapError_bind {ε α β : Type} (f : ε → LoadError) (x : Except ε α)
    (g : α → Except ε β) :
    check ((x >>= g).mapError f) = check (x.mapError f) >>= fun a => check ((g a).mapError f) := by
  cases x <;> rfl

theorem load_eq_bind (files : File.View) (path : File.Path) :
    load files path = check (Settings.fetch files path) >>= update := by
  unfold load Settings.fetch
  rcases files.readText path with cause | text
  · rfl
  show check ((Toml.read text).mapError .mistake) >>= _ = check (ofText text) >>= update
  unfold ofText
  rcases Toml.read text with cause | document
  · rfl
  show check ((machineTable document).mapError .invalid) >>= _ =
    check ((ofDocument document).mapError .invalid) >>= update
  -- The checks of several steps in a row are one check, which leaves the update at the end.
  simp only [ofDocument, check_mapError_bind, bind_assoc]
  rfl

theorem run_load (files : File.View) (path : File.Path) (s : Settings) :
    (load files path).run s =
      match Settings.fetch files path with
      | .ok given => .ok () (s.update given)
      | .error e => .error e s := by
  rw [load_eq_bind]
  cases Settings.fetch files path with
  | error e => rfl
  | ok given => exact run_update given s

theorem load_succeeds_iff :
    (∃ s', (load files path).run s = .ok () s') ↔ ∃ t, Holds files path t ∧ Fitting t := by
  rw [run_load]
  constructor
  · rintro ⟨s', hs'⟩
    cases hf : Settings.fetch files path with
    | error e => rw [hf] at hs'; cases hs'
    | ok given =>
      obtain ⟨t, ht, hgiven⟩ := fetch_eq_ok_iff.mp hf
      exact ⟨t, ht, fitting_iff.mpr ⟨given, hgiven⟩⟩
  · rintro ⟨t, ht, hfit⟩
    obtain ⟨given, hgiven⟩ := fitting_iff.mp hfit
    rw [fetch_eq_ok_iff.mpr ⟨t, ht, hgiven⟩]
    exact ⟨s.update given, rfl⟩

theorem takes_of_load {s' : Settings} (h : (load files path).run s = .ok () s') :
    ∃ t, Holds files path t ∧ ∀ {α : Type} (key : Key α), key.Takes t s s' := by
  rw [run_load] at h
  cases hf : Settings.fetch files path with
  | error e => rw [hf] at h; cases h
  | ok given =>
    rw [hf] at h
    cases h
    obtain ⟨t, ht, hgiven⟩ := fetch_eq_ok_iff.mp hf
    exact ⟨t, ht, fun key => hgiven.takes key s⟩

theorem load_fails (h : ∀ t, Holds files path t → ¬ Fitting t) (s : Settings) :
    ∃ e, (load files path).run s = .error e s := by
  rw [run_load]
  cases hf : Settings.fetch files path with
  | error e => exact ⟨e, rfl⟩
  | ok given =>
    obtain ⟨t, ht, hgiven⟩ := fetch_eq_ok_iff.mp hf
    exact absurd (fitting_iff.mpr ⟨given, hgiven⟩) (h t ht)

theorem answer_load (files : File.View) (path : File.Path) (s : Settings) (log : Log) :
    Settings.load files path s log =
      some (answer ((load files path).run s), log.push (.loadingSettings path.text)) := by
  rw [load_eq, run_load]
  cases Settings.fetch files path <;> rfl

end Editing

inductive Step where
  | update (given : Given)
  | load (files : File.View) (path : File.Path)

namespace Step

def perform : Step → Editing Unit
  | update given => Editing.update given
  | load files path => Editing.load files path

def after (s : Settings) (step : Step) : Settings :=
  Editing.settings (step.perform.run s)

inductive Gives (key : Key α) : Step → α → Prop
  | update {given : Given} {a : α} (h : key.given? given = some a) : Gives key (.update given) a
  | load {files : File.View} {path : File.Path} {t : Entries} {a : α} (ht : Holds files path t)
      (hfit : Fitting t) (h : t.find? key.name = some (key.spell a)) :
      Gives key (.load files path) a

end Step

namespace Key

/-- This is the value of the last step that gives one, or the default if none does. -/
def LastGiven (key : Key α) (steps : List Step) (a : α) : Prop :=
  (∃ before step later, steps = before ++ step :: later ∧ step.Gives key a ∧
    ∀ other ∈ later, ∀ b, ¬ other.Gives key b) ∨
  ((∀ step ∈ steps, ∀ b, ¬ step.Gives key b) ∧ a = key.get {})

end Key

theorem Holds.unique {t' : Entries} (h : Holds files path t) (h' : Holds files path t') :
    t = t' := by
  obtain ⟨text, document, htext, hdocument, ht⟩ := h
  obtain ⟨text', document', htext', hdocument', ht'⟩ := h'
  cases htext.symm.trans htext'
  cases hdocument.symm.trans hdocument'
  rw [← machineTable_eq_ok_iff] at ht ht'
  cases ht.symm.trans ht'
  rfl

theorem Step.gives_load_iff (key : Key α) {a : α} (h : fetch files path = .ok given) :
    Gives key (.load files path) a ↔ key.given? given = some a := by
  obtain ⟨t, ht, hgiven⟩ := fetch_eq_ok_iff.mp h
  constructor
  · intro hgives
    cases hgives with
    | load ht' hfit hfind =>
      cases ht.unique ht'
      rw [hgiven.found key] at hfind
      obtain ⟨b, hb, hspell⟩ := Option.map_eq_some_iff.mp hfind
      rw [hb, key.spell_injective hspell]
  · intro hg
    refine .load ht (fitting_iff.mpr ⟨given, hgiven⟩) ?_
    rw [hgiven.found key, hg]
    rfl

theorem Step.after_cases (key : Key α) (s : Settings) (step : Step) :
    step.Gives key (key.get (step.after s)) ∨
      (∀ b, ¬ step.Gives key b) ∧ key.get (step.after s) = key.get s := by
  cases step with
  | update given =>
    have hafter : Step.after s (.update given) = s.update given := by
      rw [Step.after, Step.perform, Editing.run_update]
      rfl
    rw [hafter, key.get_update]
    cases hg : key.given? given with
    | none =>
      refine Or.inr ⟨fun b hgives => ?_, rfl⟩
      cases hgives with
      | update hb => cases hg.symm.trans hb
    | some a => exact Or.inl (.update hg)
  | load files path =>
    rw [Step.after, Step.perform, Editing.run_load]
    cases hf : fetch files path with
    | error e =>
      refine Or.inr ⟨fun b hgives => ?_, rfl⟩
      cases hgives with
      | load ht hfit hfind =>
        obtain ⟨given, hgiven⟩ := fitting_iff.mp hfit
        cases hf.symm.trans (fetch_eq_ok_iff.mpr ⟨_, ht, hgiven⟩)
    | ok given =>
      show Gives key _ (key.get (s.update given)) ∨ _ ∧ key.get (s.update given) = _
      simp only [gives_load_iff key hf, key.get_update]
      cases key.given? given <;> simp

theorem Key.LastGiven.append {key : Key α} {steps : List Step}
    (h : key.LastGiven steps (key.get s)) (step : Step) :
    key.LastGiven (steps ++ [step]) (key.get (step.after s)) := by
  obtain hgives | ⟨hno, hkept⟩ := step.after_cases key s
  · exact Or.inl ⟨steps, step, [], rfl, hgives, by simp⟩
  · -- The step is one more of those that give nothing.
    rw [hkept]
    obtain ⟨before, last, later, rfl, hgives, hlater⟩ | ⟨hnone, hdefault⟩ := h
    · refine Or.inl ⟨before, last, later ++ [step], by simp, hgives, ?_⟩
      exact List.forall_mem_append.mpr ⟨hlater, List.forall_mem_singleton.mpr hno⟩
    · refine Or.inr ⟨?_, hdefault⟩
      exact List.forall_mem_append.mpr ⟨hnone, List.forall_mem_singleton.mpr hno⟩

theorem lastGiven_foldl (key : Key α) (steps : List Step) :
    key.LastGiven steps (key.get (steps.foldl Step.after {})) := by
  induction steps using List.reverseRecOn with
  | nil => exact Or.inr ⟨by simp, rfl⟩
  | append_singleton steps step ih =>
    rw [List.foldl_append]
    exact ih.append step

/-- Loading succeeds on the files with a fitting table alone, takes over what is in the table, and
changes nothing otherwise; what it reports is what the program is told. After any changes to the
default settings each setting has the value that was given last. -/
theorem loads_whole_or_nothing :
    (∀ (files : File.View) (path : File.Path) (s : Settings),
      ((∃ s', (Editing.load files path).run s = .ok () s') ↔
        ∃ t, Holds files path t ∧ Fitting t) ∧
      (∀ s', (Editing.load files path).run s = .ok () s' → ∃ t, Holds files path t ∧
        ∀ {α : Type} (key : Key α), key.Takes t s s') ∧
      ((∀ t, Holds files path t → ¬ Fitting t) →
        ∃ e, (Editing.load files path).run s = .error e s) ∧
      ∀ log, load files path s log = some (Editing.answer ((Editing.load files path).run s),
        log.push (.loadingSettings path.text))) ∧
    (∀ (given : Given) (s : Settings),
      (Editing.update given).run s = .ok () (s.update given)) ∧
    ∀ (steps : List Step) {α : Type} (key : Key α),
      key.LastGiven steps (key.get (steps.foldl Step.after {})) := by
  refine ⟨fun files path s => ?_, Editing.run_update, fun steps _ key => lastGiven_foldl key steps⟩
  refine ⟨Editing.load_succeeds_iff, ?_, ?_, Editing.answer_load files path s⟩
  · intro s' h
    exact Editing.takes_of_load h
  · intro h
    exact Editing.load_fails h s

theorem loads_whole_or_nothing_falsy :
    let files : File.View := ⟨fun written =>
      if written = "falsy" then .ok (.file "[machine]\nverbose = false\ninputs = []\n".toUTF8)
      else .ok (.file "[machine]\nverbose = true\ninputs = [1, true]\n".toUTF8)⟩
    (∃ t, Holds files (.ofString "falsy") t ∧ ∀ {α : Type} (key : Key α),
      key.Takes t ⟨true, true, false, [7]⟩ ⟨false, true, false, []⟩) ∧
    (∃ e, (Editing.load files (.ofString "mixed")).run ⟨false, true, false, []⟩ =
      .error e ⟨false, true, false, []⟩) ∧
    Key.inputs.LastGiven [.update { inputs := some [7] }, .load files (.ofString "falsy"),
      .load files (.ofString "mixed")] [] := by
  intro files
  obtain ⟨hload, -, hsteps⟩ := loads_whole_or_nothing
  have htext : files.readText (.ofString "falsy") =
      .ok "[machine]\nverbose = false\ninputs = []\n".toList := rfl
  have hfalsy : fetch files (.ofString "falsy") =
      .ok { verbose := some false, inputs := some [] } :=
    fetch_of_text htext (by decide +kernel)
  have htext' : files.readText (.ofString "mixed") =
      .ok "[machine]\nverbose = true\ninputs = [1, true]\n".toList := rfl
  obtain ⟨e, hmixed⟩ : ∃ e, fetch files (.ofString "mixed") = .error e := by
    have hnone : (ofText "[machine]\nverbose = true\ninputs = [1, true]\n".toList).toOption =
        none := by decide +kernel
    cases hf : fetch files (.ofString "mixed") with
    | error e => exact ⟨e, rfl⟩
    | ok given =>
      simp only [fetch, htext'] at hf
      rw [hf] at hnone
      cases hnone
  have hrefused : ∀ t, Holds files (.ofString "mixed") t → ¬ Fitting t := by
    intro t ht hfit
    obtain ⟨given, hgiven⟩ := fitting_iff.mp hfit
    cases hmixed.symm.trans (fetch_eq_ok_iff.mpr ⟨t, ht, hgiven⟩)
  refine ⟨?_, ?_, ?_⟩
  · refine (hload files (.ofString "falsy") ⟨true, true, false, [7]⟩).2.1 _ ?_
    rw [Editing.run_load, hfalsy]
    rfl
  · exact (hload files (.ofString "mixed") ⟨false, true, false, []⟩).2.2.1 hrefused
  · have hlast : [Step.update { inputs := some [7] }, .load files (.ofString "falsy"),
        .load files (.ofString "mixed")].foldl Step.after {} = ⟨false, false, false, []⟩ := by
      simp only [List.foldl, Step.after, Step.perform, Editing.run_update, Editing.run_load, hfalsy,
        hmixed]
      rfl
    have hinputs := hsteps [.update { inputs := some [7] }, .load files (.ofString "falsy"),
      .load files (.ofString "mixed")] .inputs
    rw [hlast] at hinputs
    exact hinputs

end Settings

end Intcode
