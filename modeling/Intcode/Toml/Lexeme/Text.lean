import Intcode.Toml.Lexeme.Basic

/-!
# Strings and keys

Strings in apostrophes stand for themselves; in strings in double quotes a backslash introduces an
escape. Both have a form with three quotes that may extend over several lines.
-/

namespace Intcode.Toml.Lexeme

def apostrophe : Char := Intcode.Text.apostrophe

def hexValue? (c : Char) : Option Nat :=
  if c.isDigit then some (c.toNat - '0'.toNat)
  else if 'a' ≤ c ∧ c ≤ 'f' then some (c.toNat - 'a'.toNat + 10)
  else if 'A' ≤ c ∧ c ≤ 'F' then some (c.toNat - 'A'.toNat + 10)
  else none

def codePoint (width : Nat) (cs : List Char) : Reading (List Char × List Char) :=
  match (cs.take width).mapM hexValue? with
  | none => .error ⟨.invalidHex, cs⟩
  | some digits =>
    if digits.length ≠ width then .error ⟨.invalidHex, cs⟩
    else
      let n := digits.foldl (fun n d => 16 * n + d) 0
      if n.isValidChar then .ok ([Char.ofNat n], cs.drop width)
      else .error ⟨.notScalar, cs.drop width⟩

def escaped? : Char → Option Char
  | 'b' => some '\x08'
  | 't' => some '\t'
  | 'n' => some '\n'
  | 'f' => some '\x0c'
  | 'r' => some '\r'
  | '"' => some '"'
  | '\\' => some '\\'
  | _ => none

/-- What follows a backslash. On several lines a backslash at the end of a line removes the line
end and all gaps and line ends behind it. -/
def escape (lines : Bool) : List Char → Reading (List Char × List Char)
  | [] => .error ⟨.unescapedBackslash, []⟩
  | 'u' :: cs => codePoint 4 cs
  | 'U' :: cs => codePoint 8 cs
  | c :: cs =>
    if lines && isGapOrLineEnd c then
      match skipGap (c :: cs) with
      | [] => .ok ([], [])
      | '\n' :: rest => .ok ([], rest.dropWhile isGapOrLineEnd)
      | rest => .error ⟨.unescapedBackslash, rest⟩
    else
      match escaped? c with
      | some e => .ok ([e], cs)
      | none => .error ⟨.unescapedBackslash, cs⟩

def quotedBody (lines : Bool) : (fuel : Nat) → (done : List Char) → List Char → Reading (List Char × List Char)
  | 0, _, cs => .error ⟨.unterminatedString, cs⟩
  | _, _, [] => .error ⟨.unterminatedString, []⟩
  | fuel + 1, done, '"' :: cs =>
    if !lines then .ok (done.reverse, cs)
    else
      match cs with
      | '"' :: '"' :: rest => .ok (done.reverse, rest)
      | _ => quotedBody lines fuel ('"' :: done) cs
  | fuel + 1, done, '\\' :: cs => do
    let (new, rest) ← escape lines cs
    quotedBody lines fuel (new.reverse ++ done) rest
  | fuel + 1, done, c :: cs =>
    if (if lines then isControlInLines c else isControl c) then .error ⟨.illegalCharacter c, c :: cs⟩
    else quotedBody lines fuel (c :: done) cs

def quotedLine (cs : List Char) : Reading (String × List Char) := do
  let (body, rest) ← quotedBody false (cs.length + 1) [] cs
  return (String.ofList body, rest)

def verbatimLine (cs : List Char) : Reading (String × List Char) := do
  let (body, rest) ← verbatim [apostrophe] isControl cs
  return (String.ofList body, rest)

def skipFirstLineEnd : List Char → List Char
  | '\n' :: cs => cs
  | cs => cs

def quotedLines (cs : List Char) : Reading (String × List Char) := do
  let (body, rest) ← quotedBody true (cs.length + 1) [] (skipFirstLineEnd cs)
  let (body, rest) := extraQuotes '"' body rest
  return (String.ofList body, rest)

def verbatimLines (cs : List Char) : Reading (String × List Char) := do
  let (body, rest) ← verbatim [apostrophe, apostrophe, apostrophe] isControlInLines (skipFirstLineEnd cs)
  let (body, rest) := extraQuotes apostrophe body rest
  return (String.ofList body, rest)

def string? : List Char → Option (Reading (String × List Char))
  | '"' :: '"' :: '"' :: cs => some (quotedLines cs)
  | '"' :: cs => some (quotedLine cs)
  | c :: cs =>
    if c == apostrophe then
      match cs with
      | c₁ :: c₂ :: rest =>
        if c₁ == apostrophe && c₂ == apostrophe then some (verbatimLines rest) else some (verbatimLine cs)
      | _ => some (verbatimLine cs)
    else none
  | [] => none

def isBare (c : Char) : Bool :=
  c.isAlphanum || c == '-' || c == '_'

def startsName (c : Char) : Bool :=
  isBare c || c == '"' || c == apostrophe

def name : List Char → Reading (String × List Char)
  | [] => .error ⟨.invalidKeyStart, []⟩
  | c :: cs =>
    if isBare c then .ok (String.ofList ((c :: cs).takeWhile isBare), (c :: cs).dropWhile isBare)
    else if c == apostrophe then verbatimLine cs
    else if c == '"' then quotedLine cs
    else .error ⟨.invalidKeyStart, c :: cs⟩

def key : (fuel : Nat) → List Char → Reading (Key × List Char)
  | 0, cs => .error ⟨.invalidKeyStart, cs⟩
  | fuel + 1, cs => do
    let (first, rest) ← name cs
    match skipGap rest with
    | '.' :: rest =>
      let (others, rest) ← key fuel (skipGap rest)
      return (first :: others, rest)
    | rest => return ([first], rest)

end Intcode.Toml.Lexeme
