import Intcode.CommandLine.Choice
import Intcode.Text.Fields

/-!
# The words of a command line

Words that begin with a hyphen name options, the others are operands; behind the word of two
hyphens all words are operands. A value stands in the next word, whatever that looks like, or in
the same one: behind the equals sign for long names, directly behind the letter for short ones.
Short names can be bundled in one word.
-/

namespace Intcode.CommandLine

structure Use where
  choice : Choice
  value : Option String

structure Words where
  uses : List Use := []
  operands : List String := []

inductive Misuse where
  | unknown (name : String)
  | missingValue (name : String)
  | needlessValue (name : String)
deriving DecidableEq

/-- What a single word amounts to: uses of options, and perhaps an option whose value has to be in
the next word, under the name by which it was called. -/
structure Reading where
  uses : List Use := []
  waiting : Option (Choice × String) := none

def readLetters (choices : List Choice) : List Char → Except Misuse Reading
  | [] => .ok {}
  | letter :: rest =>
    let name := "-" ++ letter.toString
    match choices.find? fun c => c.short == some letter with
    | none => .error (.unknown name)
    | some c =>
      if c.kind.takesValue then
        if rest.isEmpty then .ok { waiting := some (c, name) }
        else .ok { uses := [⟨c, some (String.ofList rest)⟩] }
      else do
        let reading ← readLetters choices rest
        return { reading with uses := ⟨c, none⟩ :: reading.uses }

def splitAssignment (word : List Char) : List Char × Option (List Char) :=
  match word.dropWhile (· != '=') with
  | [] => (word, none)
  | _ :: value => (word.takeWhile (· != '='), some value)

def readWord (choices : List Choice) (word : List Char) : Except Misuse Reading :=
  let (written, value) := splitAssignment word
  let name := String.ofList written
  match choices.find? fun c => c.longName == name with
  | some c =>
    match c.kind.takesValue, value with
    | true, some value => .ok { uses := [⟨c, some (String.ofList value)⟩] }
    | true, none => .ok { waiting := some (c, name) }
    | false, some _ => .error (.needlessValue name)
    | false, none => .ok { uses := [⟨c, none⟩] }
  | none =>
    match word with
    | '-' :: '-' :: _ => .error (.unknown name)
    | _ => readLetters choices word.tail

def namesOption (word : String) : Bool :=
  match word.toList with
  | '-' :: _ :: _ => true
  | _ => false

def readWords (choices : List Choice) : List String → Except Misuse Words
  | [] => .ok {}
  | "--" :: rest => .ok { operands := rest }
  | word :: rest =>
    if namesOption word then do
      let reading ← readWord choices word.toList
      match reading.waiting, rest with
      | none, rest =>
        let words ← readWords choices rest
        return { words with uses := reading.uses ++ words.uses }
      | some (_, name), [] => .error (.missingValue name)
      | some (c, _), value :: rest =>
        let words ← readWords choices rest
        return { words with uses := reading.uses ++ ⟨c, some value⟩ :: words.uses }
    else do
      let words ← readWords choices rest
      return { words with operands := word :: words.operands }

end Intcode.CommandLine
