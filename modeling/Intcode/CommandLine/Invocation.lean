import Intcode.Amplifier.Phases
import Intcode.CommandLine.UsageError
import Intcode.File.View

/-!
# Invocations

The meaning of a command line: the value of each option that was given, and the one operand. What
is wrong is looked for in a fixed order: words that cannot be told apart, values in the order in
which their options first appear, a missing operand, further operands. Asking for help comes
right after the first of these.
-/

namespace Intcode.CommandLine

inductive Setting where
  | on
  | integer (n : Int)
  | integers (ns : List Int)
  | path (written : String)
  | phases (ns : List Int)
deriving DecidableEq

structure Invocation where
  settings : List (String × Setting)
  operand : String

inductive Refusal where
  | help
  | wrong (error : UsageError)

def operandName : String := "PROGRAM_FILENAME"

def readInteger (c : Choice) (word : String) : Except UsageError Int :=
  match Text.Numeral.read? word.toList with
  | some n => .ok n
  | none => .error (.notInteger c word)

/-- The value of an option from the words that were given for it, the last one first. Only the
last one counts, except where all do. -/
def interpret (files : File.View) (c : Choice) (words : List String) : Except UsageError Setting :=
  match c.kind, words with
  | .switch, _ | _, [] => .ok .on
  | .integer, word :: _ => (readInteger c word).map .integer
  | .integers, words => (words.reverse.mapM (readInteger c)).map .integers
  | .path, word :: _ =>
    match files.follow word with
    | .error _ => .error (.noSuchPath c word)
    | .ok .locked => .error (.unreadablePath c word)
    | .ok _ => .ok (.path word)
  | .phases, word :: _ =>
    match Amplifier.readPhases? word with
    | some ns => .ok (.phases ns)
    | none => .error (.notPhases c (Amplifier.phasesExpected word))

def appearing : List Use → List Choice
  | [] => []
  | use :: uses => use.choice :: (appearing uses).filter (· ≠ use.choice)

def given (uses : List Use) (c : Choice) : List String :=
  (uses.filterMap fun use => if use.choice = c then use.value else none).reverse

def settings (files : File.View) (uses : List Use) : Except UsageError (List (String × Setting)) :=
  (appearing uses).mapM fun c => do
    return (c.long, ← interpret files c (given uses c))

def operand : List String → Except UsageError String
  | [] => .error (.missingOperand operandName)
  | [word] => .ok word
  | _ :: words => .error (.extraOperands words)

def mentionedPaths (choices : List Choice) (words : List String) : List String :=
  match readWords (choices ++ [helpChoice]) words with
  | .error _ => []
  | .ok read =>
    let written := read.uses.filterMap fun use => if use.choice.kind = .path then use.value else none
    written ++ (written ++ read.operands).map fun word => (File.Path.ofString word).text

def invoke (files : File.View) (choices : List Choice) (words : List String) :
    Except Refusal Invocation :=
  match readWords (choices ++ [helpChoice]) words with
  | .error cause => .error (.wrong (.misuse cause))
  | .ok read =>
    if read.uses.any (·.choice = helpChoice) then .error .help
    else
      match settings files read.uses with
      | .error e => .error (.wrong e)
      | .ok settings =>
        match operand read.operands with
        | .error e => .error (.wrong e)
        | .ok operand => .ok { settings, operand }

namespace Invocation

def has (i : Invocation) (name : String) : Bool :=
  (i.settings.lookup name).isSome

def integer? (i : Invocation) (name : String) : Option Int :=
  match i.settings.lookup name with
  | some (.integer n) => some n
  | _ => none

def integers (i : Invocation) (name : String) : List Int :=
  match i.settings.lookup name with
  | some (.integers ns) => ns
  | _ => []

def path? (i : Invocation) (name : String) : Option String :=
  match i.settings.lookup name with
  | some (.path written) => some written
  | _ => none

def phases? (i : Invocation) (name : String) : Option (List Int) :=
  match i.settings.lookup name with
  | some (.phases ns) => some ns
  | _ => none

end Invocation

end Intcode.CommandLine
