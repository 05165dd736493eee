import Intcode.Activity
import Intcode.File.View
import Intcode.Listing

/-! # Programs kept in files -/

namespace Intcode.Program

inductive LoadError where
  | unreadable (cause : File.Unreadable)
  | malformed (cause : Listing.Malformed)
deriving DecidableEq

def ofText (text : List Char) : Except LoadError Memory :=
  match Listing.read text with
  | .ok cells => .ok (.ofList cells)
  | .error cause => .error (.malformed cause)

def load (files : File.View) (path : File.Path) : Activity LoadError Memory := do
  .report (.loadingProgram path.text)
  let text ← .ofExcept ((files.readText path).mapError .unreadable)
  let program ← .ofExcept (ofText text)
  .report (.loadedProgram program.size)
  return program

end Intcode.Program
