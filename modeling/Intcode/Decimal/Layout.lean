import Intcode.Decimal.Binary64
import Intcode.Decimal.Shortest

/-!
# Numbers as text

A number is written with the fewest digits that identify it: with a decimal point at its place if
it is zero or at least `10 ^ -4` and below `10 ^ 16`, otherwise with one digit before the point
and a signed exponent of at least two digits.
-/

namespace Intcode.Decimal

def plainFrom : Int := -4

def plainBelow : Int := 16

def zeros (n : Nat) : String :=
  String.ofList (List.replicate n '0')

def exponentText (e : Int) : String :=
  let digits := toString e.natAbs
  (if e < 0 then "-" else "+") ++ (if digits.length < 2 then "0" ++ digits else digits)

def layout (digits : Nat) (exponent : Int) : String :=
  let ds := Nat.toDigits 10 digits
  let leading := (ds.length : Int) - 1 + exponent
  if plainFrom ≤ leading && leading < plainBelow then
    if 0 ≤ exponent then String.ofList ds ++ zeros exponent.toNat ++ ".0"
    else if 0 ≤ leading then
      let (whole, fraction) := ds.splitAt (leading.toNat + 1)
      String.ofList whole ++ "." ++ String.ofList fraction
    else "0." ++ zeros (-leading - 1).toNat ++ String.ofList ds
  else
    match ds with
    | [] => ""
    | [d] => d.toString ++ "e" ++ exponentText leading
    | d :: fraction => d.toString ++ "." ++ String.ofList fraction ++ "e" ++ exponentText leading

def sign (negative : Bool) : String :=
  if negative then "-" else ""

def Binary64.text : Binary64 → String
  | nan => "nan"
  | infinite negative => sign negative ++ "inf"
  | finite negative 0 _ => sign negative ++ "0.0"
  | finite negative m q =>
    let (digits, exponent) := shortest m q
    sign negative ++ layout digits exponent

end Intcode.Decimal
