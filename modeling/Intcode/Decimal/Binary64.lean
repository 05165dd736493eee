/-!
# Binary64 numbers

The numbers of the 64-bit binary format as exact values, and the one nearest to a decimal.
-/

namespace Intcode.Decimal

/-- Not a number, an infinity, or `m * 2 ^ q` with a sign, where `m < 2 ^ 53` and `-1074 ≤ q`. -/
inductive Binary64 where
  | nan
  | infinite (negative : Bool)
  | finite (negative : Bool) (m : Nat) (q : Int)
deriving DecidableEq

def roundDiv (num den : Nat) : Nat :=
  let floor := num / den
  match compare (2 * (num % den)) den with
  | .lt => floor
  | .gt => floor + 1
  | .eq => if floor % 2 = 0 then floor else floor + 1

namespace Binary64

def unscale (num den : Nat) (q : Int) : Nat × Nat :=
  (num * Nat.pow 2 (-q).toNat, den * Nat.pow 2 q.toNat)

def exponentFor (num den : Nat) : Int :=
  let q := (num.log2 : Int) - den.log2 - 52
  let (n, d) := unscale num den q
  max (if n / d < Nat.pow 2 52 then q - 1 else q) (-1074)

def ofRatio (negative : Bool) (num den : Nat) : Binary64 :=
  let q := exponentFor num den
  let (n, d) := unscale num den q
  let m := roundDiv n d
  let (m, q) := if m = Nat.pow 2 53 then (Nat.pow 2 52, q + 1) else (m, q)
  if 971 < q then infinite negative else finite negative m q

/-- The number nearest to `digits * 10 ^ exponent`. Decimals far outside the range of the format
are settled by their size alone. -/
def ofDecimal (negative : Bool) (digits : Nat) (exponent : Int) : Binary64 :=
  let size := ((Nat.toDigits 10 digits).length : Int) + exponent
  if digits = 0 || size < -330 then finite negative 0 (-1074)
  else if 310 < size then infinite negative
  else ofRatio negative (digits * Nat.pow 10 exponent.toNat) (Nat.pow 10 (-exponent).toNat)

end Binary64

end Intcode.Decimal
