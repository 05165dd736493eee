import Intcode.Activity
import Intcode.File.View
import Intcode.Settings
import Intcode.Toml.Document

/-!
# Settings in documents

The settings stand in the table `machine` of a document. All of the table is checked before any
of it counts: first that it is a table and has no other entries, then each entry it has.
-/

namespace Intcode.Settings

open Toml (Value Entries)

inductive Invalid where
  | notTable (got : Value)
  | unknown (names : List String)
  | notBoolean (name : String) (got : Value)
  | notList (got : Value)
  | notIntegers (got : List Value)

def Invalid.message : Invalid → String
  | notTable got => "Machine settings must be a table, got " ++ got.text
  | unknown names => "Unknown machine settings " ++ Text.bracketed (names.map Text.quoted)
  | notBoolean name got =>
    "Machine setting " ++ name ++ " must be a boolean, got " ++ got.text
  | notList got => "Machine inputs must be a list, got " ++ got.text
  | notIntegers got => "Machine inputs must be integers, got " ++ (Value.array got).text

def knownNames : List String :=
  ["verbose", "trace", "dump_memory", "inputs"]

def machineTable (document : Entries) : Except Invalid Entries :=
  match document.find? "machine" with
  | none => .ok []
  | some (.table entries) => .ok entries
  | some got => .error (.notTable got)

/-- Refuses names that are no settings, listed in the order of their characters. -/
def checkNames (t : Entries) : Except Invalid Unit :=
  match (t.map Prod.fst).filter fun name => !knownNames.contains name with
  | [] => .ok ()
  | names => .error (.unknown (names.mergeSort fun a b => !decide (b < a)))

def boolean? (t : Entries) (name : String) : Except Invalid (Option Bool) :=
  match t.find? name with
  | none => .ok none
  | some (.boolean b) => .ok (some b)
  | some got => .error (.notBoolean name got)

/-- The integers in a list of values; a truth value is no integer. -/
def integers? : List Value → Option (List Int)
  | [] => some []
  | .integer n :: vs => (integers? vs).map (n :: ·)
  | _ :: _ => none

def inputs? (t : Entries) : Except Invalid (Option (List Int)) :=
  match t.find? "inputs" with
  | none => .ok none
  | some (.array items) =>
    match integers? items with
    | some inputs => .ok (some inputs)
    | none => .error (.notIntegers items)
  | some got => .error (.notList got)

def ofDocument (document : Entries) : Except Invalid Given := do
  let t ← machineTable document
  checkNames t
  let verbose ← boolean? t "verbose"
  let trace ← boolean? t "trace"
  let dumpMemory ← boolean? t "dump_memory"
  let inputs ← inputs? t
  return { verbose, trace, dumpMemory, inputs }

inductive LoadError where
  | unreadable (cause : File.Unreadable)
  | mistake (cause : Toml.Mistake)
  | invalid (cause : Invalid)

def ofText (text : List Char) : Except LoadError Given :=
  match Toml.read text with
  | .error cause => .error (.mistake cause)
  | .ok document => (ofDocument document).mapError .invalid

def load (files : File.View) (path : File.Path) (s : Settings) : Activity LoadError Settings := do
  .report (.loadingSettings path.text)
  let text ← .ofExcept ((files.readText path).mapError .unreadable)
  let given ← .ofExcept (ofText text)
  return s.update given

end Intcode.Settings
