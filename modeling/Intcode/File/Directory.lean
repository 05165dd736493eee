import Intcode.File.View

/-!
# A directory given by its contents

The view of somebody who works in a directory and knows nothing of the world outside but that
there are directories above.
-/

namespace Intcode.File

structure Directory where
  files : List (List String × ByteArray) := []
  folders : List (List String) := []

namespace Directory

def at? (d : Directory) (place : List String) : Option Entry :=
  match d.files.find? (·.1 == place) with
  | some (_, bytes) => some (.file bytes)
  | none =>
    if place.isEmpty || (d.files.map Prod.fst ++ d.folders).any place.isPrefixOf then some .folder
    else none

/-- Follows parts from a place in the directory, or from outside of it. Every part but the last
has to lead to a folder, also an empty part or one that stays where it is. -/
def walk (d : Directory) : Option (List String) → List String → Except Obstacle Entry
  | _, [] => .ok .folder
  | here, "" :: parts | here, "." :: parts => d.walk here parts
  | none, ".." :: parts => d.walk none parts
  | none, _ :: _ => .error .missing
  | some [], ".." :: parts => d.walk none parts
  | some place, ".." :: parts => d.walk (some place.dropLast) parts
  | some place, part :: parts =>
    match d.at? (place ++ [part]) with
    | none => .error .missing
    | some .folder => d.walk (some (place ++ [part])) parts
    | some entry => if parts.isEmpty then .ok entry else .error .throughFile

def view (d : Directory) : View where
  follow written :=
    match written.toList with
    | [] => .error .missing
    | cs =>
      let start := if cs.head? == some '/' then none else some []
      d.walk start ((Text.fields '/' cs).map String.ofList)

end Directory

end Intcode.File
