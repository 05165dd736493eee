import Intcode.Text.Blank
import Intcode.Text.DecimalDigit

/-!
# Integer numerals

The form in which people may write an integer: blanks around it, at most one sign directly before
the digits, digits of any script, and single underscores between digits.

Integers are converted from and to text with any number of digits, here and everywhere else. A guard
against slow conversions that a runtime has, such as a limit of 4300 digits that can be raised or
lifted, is no part of the rules: beyond it the runtime may refuse what is converted here.
-/

namespace Intcode.Text.Numeral

def digits (value : Nat) : List Char → Option Nat
  | [] => some value
  | '_' :: c :: cs =>
    match decimalDigit? c with
    | some d => digits (10 * value + d) cs
    | none => none
  | c :: cs =>
    match decimalDigit? c with
    | some d => digits (10 * value + d) cs
    | none => none

def magnitude? : List Char → Option Nat
  | [] => none
  | c :: cs =>
    match decimalDigit? c with
    | some d => digits d cs
    | none => none

def signed? : List Char → Option Int
  | '-' :: cs => (magnitude? cs).map fun n => -(n : Int)
  | '+' :: cs => (magnitude? cs).map Int.ofNat
  | cs => (magnitude? cs).map Int.ofNat

def trim (p : Char → Bool) (cs : List Char) : List Char :=
  ((cs.dropWhile p).reverse.dropWhile p).reverse

def read? (cs : List Char) : Option Int :=
  signed? (trim isSpace cs)

end Intcode.Text.Numeral
