import Intcode.Decimal.Layout
import Intcode.Text.Quoted
import Intcode.Text.Sequence
import Intcode.Toml.Date

/-!
# Values of a settings document

The values that a document can hold, tables included, and the text in which messages show them.
The entries of a table stand in the order in which they were first given.
-/

namespace Intcode.Toml

open Intcode.Decimal (Binary64)

inductive Value where
  | boolean (b : Bool)
  | integer (n : Int)
  | float (x : Binary64)
  | string (s : String)
  | date (d : Date)
  | time (t : Time)
  | dateTime (d : Date) (t : Time) (offset : Option Int)
  | array (items : List Value)
  | table (entries : List (String × Value))

abbrev Entries := List (String × Value)

namespace Value

mutual

def text : Value → String
  | boolean b => if b then "True" else "False"
  | integer n => toString n
  | float x => x.text
  | string s => Text.quoted s
  | date d => d.text
  | time t => t.text
  | dateTime d t offset => dateTimeText d t offset
  | array items => Text.bracketed (itemTexts items)
  | table entries => "\x7b" ++ ", ".intercalate (entryTexts entries) ++ "\x7d"

def itemTexts : List Value → List String
  | [] => []
  | v :: vs => text v :: itemTexts vs

def entryTexts : List (String × Value) → List String
  | [] => []
  | (key, v) :: rest => (Text.quoted key ++ ": " ++ text v) :: entryTexts rest

end

def isCompound : Value → Bool
  | array _ | table _ => true
  | _ => false

end Value

end Intcode.Toml
