/-!
# Places in a text

Lines and columns count from one, in characters; only a line feed ends a line.
-/

namespace Intcode.Text

structure Place where
  line : Nat
  column : Nat
deriving DecidableEq

def Place.after (before : List Char) : Place where
  line := before.count '\n' + 1
  column := (before.reverse.takeWhile (· != '\n')).length + 1

def Place.ofRest (text rest : List Char) : Place :=
  .after (text.take (text.length - rest.length))

end Intcode.Text
