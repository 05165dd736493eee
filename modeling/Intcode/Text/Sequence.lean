/-!
# Sequences as text

Two ways of writing a sequence of items on one line: in square brackets, and in round brackets
where a single item keeps its comma so that it cannot be taken for a bracketed item.
-/

namespace Intcode.Text

def bracketed (items : List String) : String :=
  "[" ++ ", ".intercalate items ++ "]"

def tuple : List String → String
  | [item] => "(" ++ item ++ ",)"
  | items => "(" ++ ", ".intercalate items ++ ")"

def integers (xs : List Int) : String :=
  bracketed (xs.map toString)

end Intcode.Text
