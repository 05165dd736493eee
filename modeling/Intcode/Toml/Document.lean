import Intcode.Toml.Lexeme.Number
import Intcode.Toml.Marks

/-!
# Documents

A document is a sequence of lines, each of which opens a table, adds a table to an array, or gives
a key a value. Arrays and tables can also be written as values.
-/

namespace Intcode.Toml

open Lexeme

def assignee (cs : List Char) : Reading (Key × List Char) := do
  let (key, rest) ← key (cs.length + 1) cs
  match rest with
  | '=' :: rest => return (key, skipGap rest)
  | rest => .error ⟨.expectedEquals, rest⟩

def tableOf (key : Key) : Key := key.dropLast

def lastName (key : Key) : String := key.getLast?.getD ""

def orStop (rest : List Char) : Except Reason α → Reading α
  | .ok a => .ok a
  | .error reason => .error ⟨reason, rest⟩

def addInside (marks : Marks) (key : Key) (v : Value) (rest : List Char) (t : Entries) :
    Reading Entries :=
  if marks.isClosed key then .error ⟨.immutable key, rest⟩
  else
    let name := lastName key
    orStop rest (t.update false (Entries.add name v (.duplicateKey name)) (tableOf key))

mutual

/-- The value at the beginning of a text. Each level of nesting and each item uses up fuel. -/
def value : (fuel : Nat) → List Char → Reading (Value × List Char)
  | 0, cs => .error ⟨.invalidValue, cs⟩
  | fuel + 1, cs =>
    match string? cs with
    | some reading => do
      let (s, rest) ← reading
      return (.string s, rest)
    | none =>
      match cs with
      | 't' :: 'r' :: 'u' :: 'e' :: rest => .ok (.boolean true, rest)
      | 'f' :: 'a' :: 'l' :: 's' :: 'e' :: rest => .ok (.boolean false, rest)
      | '[' :: rest => do items fuel [] (← skipLines (rest.length + 1) rest)
      | '\x7b' :: rest =>
        match skipGap rest with
        | '\x7d' :: rest => .ok (.table [], rest)
        | rest => entries fuel [] {} rest
      | cs => scalar cs

def items : (fuel : Nat) → (done : List Value) → List Char → Reading (Value × List Char)
  | 0, _, cs => .error ⟨.unclosedArray, cs⟩
  | _ + 1, done, ']' :: rest => .ok (.array done.reverse, rest)
  | fuel + 1, done, cs => do
    let (v, rest) ← value fuel cs
    match ← skipLines (rest.length + 1) rest with
    | ']' :: rest => return (.array (v :: done).reverse, rest)
    | ',' :: rest => items fuel (v :: done) (← skipLines (rest.length + 1) rest)
    | rest => .error ⟨.unclosedArray, rest⟩

def entries : (fuel : Nat) → Entries → Marks → List Char → Reading (Value × List Char)
  | 0, _, _, cs => .error ⟨.unclosedTable, cs⟩
  | fuel + 1, t, marks, cs => do
    let (key, rest) ← assignee cs
    let (v, rest) ← value fuel rest
    let t ← addInside marks key v rest t
    match skipGap rest with
    | '\x7d' :: rest => return (.table t, rest)
    | ',' :: rest => entries fuel t (if v.isCompound then marks.close key else marks) (skipGap rest)
    | rest => .error ⟨.unclosedTable, rest⟩

end

/-- A document as far as it has been read: its entries, what is settled about keys, and the key of
the table that the next line belongs to. -/
structure Progress where
  data : Entries := []
  marks : Marks := {}
  header : Key := []

namespace Progress

def openTable (p : Progress) (cs : List Char) : Reading (Progress × List Char) := do
  let (key, rest) ← key (cs.length + 1) cs
  if p.marks.isDeclared key || p.marks.isClosed key then .error ⟨.declaredTwice key, rest⟩
  else
    let data ← orStop rest (p.data.update true .ok key)
    match rest with
    | ']' :: rest => return ({ data, marks := p.marks.declare key, header := key }, rest)
    | rest => .error ⟨.expectedTableEnd, rest⟩

/-- Adds a table to an array of tables; the keys below it are free again. -/
def openItem (p : Progress) (cs : List Char) : Reading (Progress × List Char) := do
  let (key, rest) ← key (cs.length + 1) cs
  if p.marks.isClosed key then .error ⟨.immutable key, rest⟩
  else
    let data ← orStop rest (p.data.update true (Entries.appendTable (lastName key)) (tableOf key))
    match rest with
    | ']' :: ']' :: rest =>
      return ({ data, marks := (p.marks.release key).declare key, header := key }, rest)
    | rest => .error ⟨.expectedArrayEnd, rest⟩

/-- The tables that a key of several names lies in become known when the next table begins; none
of them may have been opened by a line of its own. -/
def announceTables (header : Key) (rest : List Char) : List Key → Marks → Reading Marks
  | [], marks => .ok marks
  | table :: tables, marks =>
    let key := header ++ table
    if marks.isDeclared key then .error ⟨.redefined key, rest⟩
    else announceTables header rest tables (marks.announce key)

def assign (p : Progress) (cs : List Char) : Reading (Progress × List Char) := do
  let (key, rest) ← assignee cs
  let (v, rest) ← value (2 * rest.length + 2) rest
  let tables := ((List.range key.length).drop 1).map fun n => key.take n
  let marks ← announceTables p.header rest tables p.marks
  let table := p.header ++ tableOf key
  if marks.isClosed table then .error ⟨.immutable table, rest⟩
  else
    let data ← orStop rest (p.data.update true (Entries.add (lastName key) v .overwritten) table)
    let marks := if v.isCompound then marks.close (p.header ++ key) else marks
    return ({ p with data, marks }, rest)

def statement (p : Progress) : List Char → Reading (Progress × List Char)
  | [] => .ok (p, [])
  | '#' :: cs => .ok (p, '#' :: cs)
  | '[' :: '[' :: cs => { p with marks := p.marks.settle }.openItem (skipGap cs)
  | '[' :: cs => { p with marks := p.marks.settle }.openTable (skipGap cs)
  | c :: cs => if startsName c then p.assign (c :: cs) else .error ⟨.invalidStatement, c :: cs⟩

def lines : (fuel : Nat) → Progress → List Char → Reading Progress
  | 0, p, _ => .ok p
  | fuel + 1, p, cs =>
    match skipGap cs with
    | [] => .ok p
    | '\n' :: rest => p.lines fuel rest
    | cs => do
      let (p, rest) ← p.statement cs
      match ← skipComment (skipGap rest) with
      | [] => return p
      | '\n' :: rest => p.lines fuel rest
      | rest => .error ⟨.expectedLineEnd, rest⟩

end Progress

def read (text : List Char) : Except Mistake Entries :=
  match Progress.lines (text.length + 1) {} text with
  | .ok p => .ok p.data
  | .error stop => .error (.ofStop text stop)

end Intcode.Toml
