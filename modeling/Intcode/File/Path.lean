import Intcode.Text.Fields

/-!
# Paths

A path is a sequence of parts, counted from the working directory or from the root. Empty parts
and parts that stay where they are play no role; parts that go up are kept, since they need not
undo the part before them.
-/

namespace Intcode.File

/-- Where a path begins. Exactly two leading slashes are kept apart from one. -/
inductive Anchor where
  | here
  | root
  | doubleRoot
deriving DecidableEq

structure Path where
  anchor : Anchor
  parts : List String
deriving DecidableEq

namespace Anchor

def text : Anchor → String
  | here => ""
  | root => "/"
  | doubleRoot => "//"

def ofSlashes : Nat → Anchor
  | 0 => here
  | 2 => doubleRoot
  | _ => root

end Anchor

namespace Path

def ofString (s : String) : Path where
  anchor := .ofSlashes (s.toList.takeWhile (· == '/')).length
  parts := ((Text.fields '/' s.toList).map String.ofList).filter fun part => part != "" && part != "."

def text (p : Path) : String :=
  match p.anchor, p.parts with
  | .here, [] => "."
  | anchor, parts => anchor.text ++ "/".intercalate parts

end Path

end Intcode.File
