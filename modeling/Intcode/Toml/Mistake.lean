import Intcode.Text.Place
import Intcode.Text.Quoted
import Intcode.Text.Sequence

/-!
# Mistakes in documents

Why a document cannot be read, and the place where reading stopped.
-/

namespace Intcode.Toml

abbrev Key := List String

inductive Reason where
  | invalidStatement
  | expectedLineEnd
  | expectedTableEnd
  | expectedArrayEnd
  | expectedEquals
  | invalidKeyStart
  | invalidValue
  | invalidDate
  | declaredTwice (key : Key)
  | immutable (key : Key)
  | redefined (key : Key)
  | overwritten
  | duplicateKey (name : String)
  | unclosedArray
  | unclosedTable
  | unterminatedString
  | unescapedBackslash
  | invalidHex
  | notScalar
  | illegalCharacter (c : Char)
  | invalidCharacter (c : Char)
  | expectedText (text : String)
deriving DecidableEq

namespace Reason

def keyText (key : Key) : String :=
  Text.tuple (key.map Text.quoted)

def message : Reason → String
  | invalidStatement => "Invalid statement"
  | expectedLineEnd => "Expected newline or end of document after a statement"
  | expectedTableEnd => "Expected \u0027]\u0027 at the end of a table declaration"
  | expectedArrayEnd => "Expected \u0027]]\u0027 at the end of an array declaration"
  | expectedEquals => "Expected \u0027=\u0027 after a key in a key/value pair"
  | invalidKeyStart => "Invalid initial character for a key part"
  | invalidValue => "Invalid value"
  | invalidDate => "Invalid date or datetime"
  | declaredTwice key => "Cannot declare " ++ keyText key ++ " twice"
  | immutable key => "Cannot mutate immutable namespace " ++ keyText key
  | redefined key => "Cannot redefine namespace " ++ keyText key
  | overwritten => "Cannot overwrite a value"
  | duplicateKey name => "Duplicate inline table key " ++ Text.quoted name
  | unclosedArray => "Unclosed array"
  | unclosedTable => "Unclosed inline table"
  | unterminatedString => "Unterminated string"
  | unescapedBackslash => "Unescaped \u0027\\\u0027 in a string"
  | invalidHex => "Invalid hex value"
  | notScalar => "Escaped character is not a Unicode scalar value"
  | illegalCharacter c => "Illegal character " ++ Text.quoted c.toString
  | invalidCharacter c => "Found invalid character " ++ Text.quoted c.toString
  | expectedText text => "Expected " ++ Text.quoted text

end Reason

structure Stop where
  reason : Reason
  rest : List Char

abbrev Reading := Except Stop

structure Mistake where
  reason : Reason
  place : Option Text.Place
deriving DecidableEq

namespace Mistake

def ofStop (text : List Char) (stop : Stop) : Mistake where
  reason := stop.reason
  place := if stop.rest.isEmpty then none else some (.ofRest text stop.rest)

def message (m : Mistake) : String :=
  m.reason.message ++
    match m.place with
    | some p => " (at line " ++ toString p.line ++ ", column " ++ toString p.column ++ ")"
    | none => " (at end of document)"

end Mistake

end Intcode.Toml
