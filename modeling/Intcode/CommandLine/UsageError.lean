import Intcode.CommandLine.Words
import Intcode.Text.Quoted

/-! # What is wrong with a command line -/

namespace Intcode.CommandLine

inductive UsageError where
  | misuse (cause : Misuse)
  | notInteger (choice : Choice) (word : String)
  | noSuchPath (choice : Choice) (word : String)
  | unreadablePath (choice : Choice) (word : String)
  | notPhases (choice : Choice) (reason : String)
  | missingOperand (name : String)
  | extraOperands (words : List String)
  | badSettings (reason : String)
  | unpaired (first second : String)
deriving DecidableEq

namespace UsageError

def hint (c : Choice) : String :=
  " / ".intercalate (c.names.map Text.quoted)

def invalid (name reason : String) : String :=
  "Invalid value for " ++ name ++ ": " ++ reason

def message : UsageError → String
  | misuse (.unknown name) => "No such option " ++ Text.quoted name ++ "."
  | misuse (.missingValue name) => "Option " ++ Text.quoted name ++ " requires an argument."
  | misuse (.needlessValue name) => "Option " ++ Text.quoted name ++ " does not take a value."
  | notInteger c word => invalid (hint c) (Text.quoted word ++ " is not a valid integer.")
  | noSuchPath c word => invalid (hint c) ("Path " ++ Text.quoted word ++ " does not exist.")
  | unreadablePath c word => invalid (hint c) ("Path " ++ Text.quoted word ++ " is not readable.")
  | notPhases c reason => invalid (hint c) reason
  | missingOperand name => "Missing argument " ++ Text.quoted name ++ "."
  | extraOperands words =>
    "Got unexpected extra argument" ++ (if words.length = 1 then "" else "s") ++ " (" ++
      " ".intercalate words ++ ")"
  | badSettings reason => invalid "--config" reason
  | unpaired first second => first ++ " and " ++ second ++ " must be given together"

def remindsOfUsage : UsageError → Bool
  | misuse (.missingValue _) | misuse (.needlessValue _) => false
  | _ => true

end UsageError

end Intcode.CommandLine
