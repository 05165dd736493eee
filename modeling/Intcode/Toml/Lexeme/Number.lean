import Intcode.Toml.Lexeme.Text
import Intcode.Toml.Value

/-!
# Numbers, dates and times

The longest number, date or time at the beginning of a text. Underscores may stand between digits,
of which there is no greatest number.
-/

namespace Intcode.Toml.Lexeme

def moreDigits (p : Char → Bool) : List Char → List Char × List Char
  | '_' :: c :: cs =>
    if p c then
      let (ds, rest) := moreDigits p cs
      (c :: ds, rest)
    else ([], '_' :: c :: cs)
  | c :: cs =>
    if p c then
      let (ds, rest) := moreDigits p cs
      (c :: ds, rest)
    else ([], c :: cs)
  | [] => ([], [])

def digits? (p : Char → Bool) : List Char → Option (List Char × List Char)
  | c :: cs =>
    if p c then
      let (ds, rest) := moreDigits p cs
      some (c :: ds, rest)
    else none
  | [] => none

def valueIn (base : Nat) (ds : List Char) : Nat :=
  ds.foldl (fun n c => base * n + (hexValue? c).getD 0) 0

def isDigitIn (base : Nat) (c : Char) : Bool :=
  match hexValue? c with
  | some d => d < base
  | none => false

def base? : Char → Option Nat
  | 'x' => some 16
  | 'o' => some 8
  | 'b' => some 2
  | _ => none

def based? : List Char → Option (Nat × List Char)
  | '0' :: letter :: cs => do
    let base ← base? letter
    let (ds, rest) ← digits? (isDigitIn base) cs
    return (valueIn base ds, rest)
  | _ => none

def sign : List Char → Bool × List Char
  | '-' :: cs => (true, cs)
  | '+' :: cs => (false, cs)
  | cs => (false, cs)

def whole? : List Char → Option (List Char × List Char)
  | '0' :: cs => some (['0'], cs)
  | cs => digits? Char.isDigit cs

def fraction? : List Char → Option (List Char × List Char)
  | '.' :: cs => digits? Char.isDigit cs
  | _ => none

def exponent? : List Char → Option (Int × List Char)
  | c :: cs =>
    if c == 'e' || c == 'E' then
      let (negative, cs) := sign cs
      (digits? Char.isDigit cs).map fun (ds, rest) =>
        (if negative then -(valueIn 10 ds : Int) else valueIn 10 ds, rest)
    else none
  | [] => none

def decimal? (cs : List Char) : Option (Value × List Char) :=
  let (negative, cs) := sign cs
  match whole? cs with
  | none => none
  | some (ds, rest) =>
    let fraction := fraction? rest
    let rest := (fraction.map Prod.snd).getD rest
    let exponent := exponent? rest
    let rest := (exponent.map Prod.snd).getD rest
    if fraction.isNone && exponent.isNone then
      let n : Int := valueIn 10 ds
      some (.integer (if negative then -n else n), rest)
    else
      let fs := (fraction.map Prod.fst).getD []
      let e := (exponent.map Prod.fst).getD 0
      some (.float (.ofDecimal negative (valueIn 10 (ds ++ fs)) (e - fs.length)), rest)

def special? (cs : List Char) : Option (Value × List Char) :=
  let (negative, cs) := sign cs
  match cs with
  | 'i' :: 'n' :: 'f' :: rest => some (.float (.infinite negative), rest)
  | 'n' :: 'a' :: 'n' :: rest => some (.float .nan, rest)
  | _ => none

def fixed? (width low high : Nat) (cs : List Char) : Option (Nat × List Char) :=
  let ds := cs.take width
  let n := valueIn 10 ds
  if ds.length = width ∧ ds.all Char.isDigit ∧ low ≤ n ∧ n ≤ high then some (n, cs.drop width)
  else none

def expect? (c : Char) : List Char → Option (List Char)
  | [] => none
  | c₁ :: cs => if c₁ == c then some cs else none

def day? (cs : List Char) : Option (Date × List Char) := do
  let (year, cs) ← fixed? 4 0 9999 cs
  let (month, cs) ← fixed? 2 1 12 (← expect? '-' cs)
  let (day, cs) ← fixed? 2 1 31 (← expect? '-' cs)
  return (⟨year, month, day⟩, cs)

def microseconds : List Char → Nat × List Char
  | '.' :: cs =>
    match cs.takeWhile Char.isDigit with
    | [] => (0, '.' :: cs)
    | ds => (valueIn 10 ((ds.take 6).rightpad 6 '0'), cs.dropWhile Char.isDigit)
  | cs => (0, cs)

def time? (cs : List Char) : Option (Time × List Char) := do
  let (hour, cs) ← fixed? 2 0 23 cs
  let (minute, cs) ← fixed? 2 0 59 (← expect? ':' cs)
  let (second, cs) ← fixed? 2 0 59 (← expect? ':' cs)
  let (micro, cs) := microseconds cs
  return (⟨hour, minute, second, micro⟩, cs)

def offset? : List Char → Option (Int × List Char)
  | [] => none
  | c :: cs =>
    if c == 'Z' || c == 'z' then some (0, cs)
    else if c == '+' || c == '-' then do
      let (hours, cs) ← fixed? 2 0 23 cs
      let (minutes, cs) ← fixed? 2 0 59 (← expect? ':' cs)
      let total : Int := 60 * hours + minutes
      return (if c == '-' then -total else total, cs)
    else none

def dayTime? : List Char → Option (Time × List Char)
  | [] => none
  | c :: cs => if c == 'T' || c == 't' || c == ' ' then time? cs else none

def moment? (cs : List Char) : Option (Date × Value × List Char) := do
  let (day, rest) ← day? cs
  match dayTime? rest with
  | none => return (day, .date day, rest)
  | some (time, rest) =>
    match offset? rest with
    | none => return (day, .dateTime day time none, rest)
    | some (offset, rest) => return (day, .dateTime day time offset, rest)

def scalar (cs : List Char) : Reading (Value × List Char) :=
  match moment? cs with
  | some (day, v, rest) => if day.Valid then .ok (v, rest) else .error ⟨.invalidDate, cs⟩
  | none =>
    match time? cs with
    | some (time, rest) => .ok (.time time, rest)
    | none =>
      match based? cs with
      | some (n, rest) => .ok (.integer n, rest)
      | none =>
        match decimal? cs <|> special? cs with
        | some read => .ok read
        | none => .error ⟨.invalidValue, cs⟩

end Intcode.Toml.Lexeme
