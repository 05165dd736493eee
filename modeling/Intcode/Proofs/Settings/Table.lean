import Intcode.Proofs.Machine.Effect
import Intcode.Settings.Document
import Mathlib.Data.List.Basic

/-!
# Tables of settings

The settings by name, each with the type of its values and the way a document spells them. Main
statement: a document gives settings just when its table has no other entries and spells a value in
each of them, and then it gives these values.
-/

namespace Intcode

open Toml (Value Entries)

namespace Settings

inductive Key : Type → Type
  | verbose : Key Bool
  | trace : Key Bool
  | dumpMemory : Key Bool
  | inputs : Key (List Int)

namespace Key

variable {α : Type}

def name : Key α → String
  | verbose => "verbose"
  | trace => "trace"
  | dumpMemory => "dump_memory"
  | inputs => "inputs"

def spell : Key α → α → Value
  | verbose, b | trace, b | dumpMemory, b => .boolean b
  | inputs, ns => .array (ns.map .integer)

def get : Key α → Settings → α
  | verbose, s => s.verbose
  | trace, s => s.trace
  | dumpMemory, s => s.dumpMemory
  | inputs, s => s.inputs

def given? : Key α → Given → Option α
  | verbose, given => given.verbose
  | trace, given => given.trace
  | dumpMemory, given => given.dumpMemory
  | inputs, given => given.inputs

theorem spell_injective (key : Key α) : Function.Injective key.spell := by
  intro a b h
  cases key with
  | verbose | trace | dumpMemory => exact Value.boolean.inj h
  | inputs =>
    have hinteger : Function.Injective Value.integer := fun _ _ h => Value.integer.inj h
    exact List.map_injective_iff.mpr hinteger (Value.array.inj h)

theorem get_update (key : Key α) (s : Settings) (given : Given) :
    key.get (s.update given) = (key.given? given).getD (key.get s) := by
  cases key <;> rfl

theorem mem_knownNames_iff {written : String} :
    written ∈ knownNames ↔ ∃ (α : Type) (key : Key α), written = key.name := by
  constructor
  · intro h
    simp only [knownNames, List.mem_cons, List.not_mem_nil, or_false] at h
    obtain rfl | rfl | rfl | rfl := h
    · exact ⟨_, .verbose, rfl⟩
    · exact ⟨_, .trace, rfl⟩
    · exact ⟨_, .dumpMemory, rfl⟩
    · exact ⟨_, .inputs, rfl⟩
  · rintro ⟨α, key, rfl⟩
    cases key <;> simp [knownNames, name]

/-- The setting has the value that the table has for it, or else the one it had before. -/
inductive Takes (key : Key α) (t : Entries) (before after : Settings) : Prop
  | replaced (h : t.find? key.name = some (key.spell (key.get after)))
  | kept (h : t.find? key.name = none) (hk : key.get after = key.get before)

end Key

/-- The table with the settings; a document without one has none of them. -/
inductive MachineTable (document : Entries) : Entries → Prop
  | absent (h : document.find? "machine" = none) : MachineTable document []
  | present {t : Entries} (h : document.find? "machine" = some (.table t)) :
      MachineTable document t

def Known (t : Entries) : Prop :=
  ∀ written ∈ t.map Prod.fst, ∃ (α : Type) (key : Key α), written = key.name

structure Fitting (t : Entries) : Prop where
  known : Known t
  typed : ∀ {α : Type} (key : Key α) (v : Value), t.find? key.name = some v →
    ∃ a, v = key.spell a

structure Spells (t : Entries) (given : Given) : Prop where
  known : Known t
  found : ∀ {α : Type} (key : Key α), t.find? key.name = (key.given? given).map key.spell

variable {document t : Entries} {given : Given} {α : Type}

theorem spells_iff : Spells t given ↔ Known t ∧
    t.find? "verbose" = given.verbose.map .boolean ∧ t.find? "trace" = given.trace.map .boolean ∧
    t.find? "dump_memory" = given.dumpMemory.map .boolean ∧
    t.find? "inputs" = given.inputs.map Key.inputs.spell := by
  constructor
  · rintro ⟨hknown, hfound⟩
    exact ⟨hknown, hfound .verbose, hfound .trace, hfound .dumpMemory, hfound .inputs⟩
  · rintro ⟨hknown, hverbose, htrace, hdump, hinputs⟩
    refine ⟨hknown, fun key => ?_⟩
    cases key with
    | verbose => exact hverbose
    | trace => exact htrace
    | dumpMemory => exact hdump
    | inputs => exact hinputs

theorem machineTable_eq_ok_iff : machineTable document = .ok t ↔ MachineTable document t := by
  unfold machineTable
  constructor
  · intro h
    split at h
    next hnone => cases h; exact .absent hnone
    next entries hsome => cases h; exact .present hsome
    next => cases h
  · rintro (h | h) <;> rw [h]

theorem checkNames_eq_ok_iff : checkNames t = .ok () ↔ Known t := by
  have hunknown : (t.map Prod.fst).filter (fun name => !knownNames.contains name) = [] ↔
      Known t := by
    simp [List.filter_eq_nil_iff, Known, ← Key.mem_knownNames_iff]
  rw [← hunknown]
  unfold checkNames
  cases (t.map Prod.fst).filter fun name => !knownNames.contains name <;> simp

theorem boolean?_eq_ok_iff {name : String} {o : Option Bool} :
    boolean? t name = .ok o ↔ t.find? name = o.map .boolean := by
  unfold boolean?
  rcases t.find? name with _ | v
  · cases o <;> simp
  · cases v <;> cases o <;> simp

theorem integers?_eq_some_iff {items : List Value} {ns : List Int} :
    integers? items = some ns ↔ items = ns.map .integer := by
  induction items generalizing ns with
  | nil => cases ns <;> simp [integers?]
  | cons v items ih =>
    cases v with
    | integer n =>
      cases ns with
      | nil => simp [integers?]
      | cons k ns => simp [integers?, ih, and_comm]
    | _ => cases ns <;> simp [integers?]

theorem inputs?_eq_ok_iff {o : Option (List Int)} :
    inputs? t = .ok o ↔ t.find? "inputs" = o.map Key.inputs.spell := by
  unfold inputs?
  rcases t.find? "inputs" with _ | v
  · cases o <;> simp
  · cases v with
    | array items =>
      have hitems (ns : List Int) : integers? items = some ns ↔ items = ns.map .integer :=
        integers?_eq_some_iff
      cases hn : integers? items <;> cases o <;> simp_all [Key.spell]
    | _ => cases o <;> simp [Key.spell]

theorem ofDocument_eq_ok_iff :
    ofDocument document = .ok given ↔ ∃ t, MachineTable document t ∧ Spells t given := by
  simp only [ofDocument, bind_eq_ok_iff, machineTable_eq_ok_iff, boolean?_eq_ok_iff,
    inputs?_eq_ok_iff]
  constructor
  · rintro ⟨t, ht, _, hnames, verbose, hverbose, trace, htrace, dump, hdump, inputs, hinputs, hg⟩
    cases hg
    have hknown := checkNames_eq_ok_iff.mp hnames
    exact ⟨t, ht, spells_iff.mpr ⟨hknown, hverbose, htrace, hdump, hinputs⟩⟩
  · rintro ⟨t, ht, hspells⟩
    obtain ⟨hknown, hverbose, htrace, hdump, hinputs⟩ := spells_iff.mp hspells
    have hnames := checkNames_eq_ok_iff.mpr hknown
    exact ⟨t, ht, (), hnames, _, hverbose, _, htrace, _, hdump, _, hinputs, rfl⟩

theorem fitting_iff : Fitting t ↔ ∃ given, Spells t given := by
  constructor
  · rintro ⟨hknown, htyped⟩
    have hfound {α : Type} (key : Key α) :
        ∃ o : Option α, t.find? key.name = o.map key.spell := by
      cases hv : t.find? key.name with
      | none => exact ⟨none, rfl⟩
      | some v =>
        obtain ⟨a, rfl⟩ := htyped key v hv
        exact ⟨some a, rfl⟩
    obtain ⟨verbose, hverbose⟩ := hfound .verbose
    obtain ⟨trace, htrace⟩ := hfound .trace
    obtain ⟨dumpMemory, hdump⟩ := hfound .dumpMemory
    obtain ⟨inputs, hinputs⟩ := hfound .inputs
    exact ⟨{ verbose, trace, dumpMemory, inputs },
      spells_iff.mpr ⟨hknown, hverbose, htrace, hdump, hinputs⟩⟩
  · rintro ⟨given, hknown, hfound⟩
    refine ⟨hknown, fun key v hv => ?_⟩
    obtain ⟨a, -, ha⟩ := Option.map_eq_some_iff.mp ((hfound key).symm.trans hv)
    exact ⟨a, ha.symm⟩

theorem Spells.takes (h : Spells t given) (key : Key α) (s : Settings) :
    key.Takes t s (s.update given) := by
  have hget := key.get_update s given
  cases hg : key.given? given with
  | none =>
    refine .kept ?_ ?_
    · rw [h.found, hg]; rfl
    · rw [hget, hg]; rfl
  | some a =>
    refine .replaced ?_
    rw [h.found, hget, hg]
    rfl

end Settings

end Intcode
