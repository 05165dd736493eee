/-!
# The fewest digits that read back

For a positive number `m * 2 ^ q` of the 64-bit binary format, the decimal with the fewest digits
among those that are nearer to it than to any other number of the format; of several with equally
many digits the nearest one, and of two equally near ones the even one.
-/

namespace Intcode.Decimal

def compareScaled (a : Nat) (i : Int) (b : Nat) (j : Int) : Ordering :=
  compare (a * Nat.pow 10 i.toNat * Nat.pow 2 (-j).toNat)
    (b * Nat.pow 2 j.toNat * Nat.pow 10 (-i).toNat)

/-- The decimal `d * 10 ^ g` rounds to `m * 2 ^ q`. The next number below a power of two is only
half as far away as the next one above; an end of the interval belongs to it if `m` is even. -/
def readsBack (m : Nat) (q : Int) (d : Nat) (g : Int) : Bool :=
  let low := if m = Nat.pow 2 52 && -1074 < q then 4 * m - 1 else 4 * m - 2
  let high := 4 * m + 2
  let even := m % 2 == 0
  let above := compareScaled d g low (q - 2)
  let below := compareScaled d g high (q - 2)
  (above == .gt || even && above == .eq) && (below == .lt || even && below == .eq)

/-- The least `k` with `m * 2 ^ q < 10 ^ k`. -/
def scale (m : Nat) (q : Int) : Int :=
  let n := m * Nat.pow 2 q.toNat
  let d := Nat.pow 2 (-q).toNat
  if d ≤ n then (Nat.toDigits 10 (n / d)).length
  else 1 - ((Nat.toDigits 10 (d / n)).length : Int)

/-- The better of the two multiples of `10 ^ g` around `m * 2 ^ q`, if one of them reads back. -/
def onGrid? (m : Nat) (q g : Int) : Option Nat :=
  let low := m * Nat.pow 2 q.toNat * Nat.pow 10 (-g).toNat /
    (Nat.pow 2 (-q).toNat * Nat.pow 10 g.toNat)
  match readsBack m q low g, readsBack m q (low + 1) g with
  | false, false => none
  | true, false => some low
  | false, true => some (low + 1)
  | true, true =>
    match compareScaled (2 * low + 1) g (2 * m) q with
    | .gt => some low
    | .lt => some (low + 1)
    | .eq => some (if low % 2 = 0 then low else low + 1)

def strip : Nat → Nat → Int → Nat × Int
  | fuel + 1, digits, exponent =>
    if digits ≠ 0 && digits % 10 = 0 then strip fuel (digits / 10) (exponent + 1)
    else (digits, exponent)
  | 0, digits, exponent => (digits, exponent)

def exact (m : Nat) (q : Int) : Nat × Int :=
  if 0 ≤ q then (m * Nat.pow 2 q.toNat, 0) else (m * Nat.pow 5 (-q).toNat, q)

def shortest (m : Nat) (q : Int) : Nat × Int :=
  let k := scale m q
  let found := (List.range 17).findSome? fun (n : Nat) =>
    let g := k - 1 - n
    (onGrid? m q g).map fun d => (d, g)
  let (digits, exponent) := found.getD (exact m q)
  strip (Nat.toDigits 10 digits).length digits exponent

end Intcode.Decimal
