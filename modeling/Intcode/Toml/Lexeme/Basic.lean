import Intcode.Toml.Mistake

/-!
# Gaps, comments and literal texts

The smallest pieces of a document. Every reader takes the characters that are left and hands back
what it leaves.
-/

namespace Intcode.Toml.Lexeme

def isGap (c : Char) : Bool :=
  c == ' ' || c == '\t'

def isGapOrLineEnd (c : Char) : Bool :=
  isGap c || c == '\n'

def skipGap (cs : List Char) : List Char :=
  cs.dropWhile isGap

def isControl (c : Char) : Bool :=
  c.toNat < 0x20 && c != '\t' || c.toNat == 0x7F

def isControlInLines (c : Char) : Bool :=
  isControl c && c != '\n'

def refuse (forbidden : Char → Bool) (piece cs : List Char) : Except Stop Unit :=
  match piece.find? forbidden with
  | some c => .error ⟨.invalidCharacter c, cs.dropWhile fun c => !forbidden c⟩
  | none => .ok ()

def skipComment : List Char → Except Stop (List Char)
  | '#' :: cs => do
    refuse isControl (cs.takeWhile (· != '\n')) cs
    return cs.dropWhile (· != '\n')
  | cs => .ok cs

/-- Skips gaps, line ends and comments, each comment followed by a gap or a line end if it is to
be skipped as well. -/
def skipLines : (fuel : Nat) → List Char → Except Stop (List Char)
  | 0, cs => .ok cs
  | fuel + 1, cs => do
    let rest ← skipComment (cs.dropWhile isGapOrLineEnd)
    if rest.length = cs.length then return rest else skipLines fuel rest

def splitAtMark? (mark : List Char) : List Char → Option (List Char × List Char)
  | [] => if mark.isEmpty then some ([], []) else none
  | c :: cs =>
    if mark.isPrefixOf (c :: cs) then some ([], (c :: cs).drop mark.length)
    else (splitAtMark? mark cs).map fun (before, after) => (c :: before, after)

def verbatim (mark : List Char) (forbidden : Char → Bool) (cs : List Char) : Reading (List Char × List Char) :=
  match splitAtMark? mark cs with
  | none => .error ⟨.expectedText (String.ofList mark), []⟩
  | some (body, rest) => do
    refuse forbidden body cs
    return (body, rest)

/-- Up to two further quotes right behind a closing mark belong to the text. -/
def extraQuotes (quote : Char) (body rest : List Char) : List Char × List Char :=
  let extra := (rest.take 2).takeWhile (· == quote)
  (body ++ extra, rest.drop extra.length)

end Intcode.Toml.Lexeme
