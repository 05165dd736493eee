import Intcode.File.Path
import Intcode.Text.File
import Intcode.Text.Quoted

/-!
# Views of the file system

All that a program needs to know about files: what a path leads to, or why it leads nowhere.
-/

namespace Intcode.File

inductive Entry where
  | file (bytes : ByteArray)
  | folder
  /-- A file or a folder that may not be read. -/
  | locked

inductive Obstacle where
  | missing
  | isFolder
  | throughFile
  | denied
deriving DecidableEq

namespace Obstacle

def number : Obstacle → Nat
  | missing => 2
  | isFolder => 21
  | throughFile => 20
  | denied => 13

def reason : Obstacle → String
  | missing => "No such file or directory"
  | isFolder => "Is a directory"
  | throughFile => "Not a directory"
  | denied => "Permission denied"

end Obstacle

structure View where
  follow : String → Except Obstacle Entry

inductive Unreadable where
  | unopened (obstacle : Obstacle) (path : Path)
  | undecodable
deriving DecidableEq

def openFailure (obstacle : Obstacle) (path : Path) : String :=
  "[Errno " ++ toString obstacle.number ++ "] " ++ obstacle.reason ++ ": " ++ Text.quoted path.text

namespace View

def readBytes (v : View) (path : Path) : Except Obstacle ByteArray :=
  match v.follow path.text with
  | .ok (.file bytes) => .ok bytes
  | .ok .folder => .error .isFolder
  | .ok .locked => .error .denied
  | .error obstacle => .error obstacle

def readText (v : View) (path : Path) : Except Unreadable (List Char) :=
  match v.readBytes path with
  | .error obstacle => .error (.unopened obstacle path)
  | .ok bytes =>
    match Text.ofBytes? bytes with
    | some text => .ok text
    | none => .error .undecodable

end View

end Intcode.File
