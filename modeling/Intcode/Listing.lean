import Intcode.Text.Blank
import Intcode.Text.Place

/-!
# Program listings

A listing is a sequence of integers in decimal notation with optional signs. Two integers may have
a comma between them and blanks around it; without a comma, blanks or the sign of the second have
to keep them apart. Tabs count as blanks up to the next multiple of eight columns, and the places
in error messages refer to the text with the tabs replaced. Integers may be of any length, whatever
number of digits a runtime is set to convert at most.
-/

namespace Intcode.Listing

open Text (Place isBlank)

def tabWidth : Nat := 8

def expandTabs (column : Nat) : List Char → List Char
  | [] => []
  | c :: cs =>
    if c == '\t' then
      let width := tabWidth - column % tabWidth
      List.replicate width ' ' ++ expandTabs (column + width) cs
    else
      c :: expandTabs (if c == '\n' || c == '\r' then 0 else column + 1) cs

inductive Expected where
  | integer
  | endOfText
deriving DecidableEq

structure Malformed where
  place : Place
  expected : Expected
deriving DecidableEq

def Expected.message : Expected → String
  | integer => "Expected Re:(\u0027[+-]?[0-9]+\u0027)"
  | endOfText => "Expected end of text"

def Malformed.message (e : Malformed) : String :=
  "Malformed program at line " ++ toString e.place.line ++ ", column " ++
    toString e.place.column ++ ": " ++ e.expected.message

def value (digits : List Char) : Nat :=
  digits.foldl (fun n c => 10 * n + (c.toNat - '0'.toNat)) 0

def natural? (cs : List Char) : Option (Nat × List Char) :=
  match cs.takeWhile Char.isDigit with
  | [] => none
  | digits => some (value digits, cs.dropWhile Char.isDigit)

def integer? : List Char → Option (Int × List Char)
  | '-' :: cs => (natural? cs).map fun (n, rest) => (-(n : Int), rest)
  | '+' :: cs => (natural? cs).map fun (n, rest) => ((n : Int), rest)
  | cs => (natural? cs).map fun (n, rest) => ((n : Int), rest)

def first? (cs : List Char) : Option (Int × List Char) :=
  integer? (cs.dropWhile isBlank)

def next? (cs : List Char) : Option (Int × List Char) :=
  match cs.dropWhile isBlank with
  | ',' :: rest => first? rest
  | rest => integer? rest

theorem natural?_length_lt {cs rest : List Char} {n : Nat} (h : natural? cs = some (n, rest)) :
    rest.length < cs.length := by
  unfold natural? at h
  split at h
  · cases h
  · next hne =>
    obtain ⟨-, rfl⟩ := Prod.mk.inj (Option.some.inj h)
    have hcs := congrArg List.length (List.takeWhile_append_dropWhile (p := Char.isDigit) (l := cs))
    have : 0 < (cs.takeWhile Char.isDigit).length := List.length_pos_iff.2 hne
    simp only [List.length_append] at hcs
    omega

theorem integer?_length_lt {cs rest : List Char} {v : Int} (h : integer? cs = some (v, rest)) :
    rest.length < cs.length := by
  unfold integer? at h
  split at h <;> obtain ⟨⟨n, r⟩, hn, he⟩ := Option.map_eq_some_iff.1 h <;> cases he <;>
    have := natural?_length_lt hn
  · exact Nat.lt_succ_of_lt this
  · exact Nat.lt_succ_of_lt this
  · exact this

theorem first?_length_lt {cs rest : List Char} {v : Int} (h : first? cs = some (v, rest)) :
    rest.length < cs.length :=
  Nat.lt_of_lt_of_le (integer?_length_lt h) (List.dropWhile_suffix _).length_le

theorem next?_length_lt {cs rest : List Char} {v : Int} (h : next? cs = some (v, rest)) :
    rest.length < cs.length := by
  have hd := (List.dropWhile_suffix (l := cs) isBlank).length_le
  unfold next? at h
  split at h
  · next hc =>
    have := first?_length_lt h
    rw [hc, List.length_cons] at hd
    omega
  · have := integer?_length_lt h
    omega

def more (cs : List Char) : List Int × List Char :=
  match h : next? cs with
  | some (v, rest) =>
    have := next?_length_lt h
    let (vs, last) := more rest
    (v :: vs, last)
  | none => ([], cs)
termination_by cs.length

def readExpanded (cs : List Char) : Except Malformed (List Int) :=
  match first? cs with
  | none => .error ⟨.ofRest cs (cs.dropWhile isBlank), .integer⟩
  | some (v, rest) =>
    let (vs, rest) := more rest
    match rest.dropWhile isBlank with
    | [] => .ok (v :: vs)
    | rest => .error ⟨.ofRest cs rest, .endOfText⟩

def read (text : List Char) : Except Malformed (List Int) :=
  readExpanded (expandTabs 0 text)

def print (xs : List Int) : String :=
  ",".intercalate (xs.map toString)

end Intcode.Listing
