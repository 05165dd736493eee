/-!
# Options of a command

An option has a long name and perhaps a short one, and takes a value of some kind or none.
-/

namespace Intcode.CommandLine

inductive Kind where
  | switch
  | integer
  | integers
  | path
  | phases
deriving DecidableEq

def Kind.takesValue : Kind → Bool
  | switch => false
  | _ => true

structure Choice where
  long : String
  short : Option Char := none
  kind : Kind := .switch
  placeholder : String := ""
  help : List String
deriving DecidableEq

namespace Choice

def longName (c : Choice) : String := "--" ++ c.long

def names (c : Choice) : List String :=
  (c.short.map fun s => "-" ++ s.toString).toList ++ [c.longName]

def usage (c : Choice) : String :=
  ", ".intercalate c.names ++ (if c.kind.takesValue then " " ++ c.placeholder else "")

end Choice

def helpChoice : Choice where
  long := "help"
  help := ["Show this message and exit."]

end Intcode.CommandLine
