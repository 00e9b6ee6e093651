import HiToolchain.Binary64.Basic

/-!
The shortest decimal of a double precision number: of the decimals that round to the number one
with the fewest digits, and of those the nearest. The decimals that round to `m * 2 ^ q` are
those between the middles of the gaps around it; the ends belong to it when `m` is even. On the
grid of multiples of a power of ten only the two neighbours of the number need to be tried.
-/

namespace HiToolchain

/-- `digits * 10 ^ exponent`. -/
structure Decimal where
  digits : Nat
  exponent : Int
  deriving DecidableEq, Repr, Inhabited

namespace Decimal

/-- The decimal digits, most significant first. -/
def digitChars (d : Decimal) : List Char :=
  Nat.toDigits 10 d.digits

/-- The power of ten of the first digit. -/
def leading (d : Decimal) : Int :=
  d.exponent + d.digitChars.length - 1

/-- Numerator of `a * 10 ^ i` against a denominator of `b * 2 ^ e`: the two products compare as
the two numbers do. -/
def crossDecimal (a : Nat) (i e : Int) : Nat :=
  a * tenTo i.toNat * twoTo (-e).toNat

/-- The other side of `crossDecimal`. -/
def crossBinary (b : Nat) (e i : Int) : Nat :=
  b * twoTo e.toNat * tenTo (-i).toNat

/-- The gap below a power of two is half as wide as the one above it. -/
def narrowBelow (m : Nat) (q : Int) : Bool :=
  m == twoTo 52 && Binary64.leastExponent < q

/-- Whether `a * 10 ^ i` rounds to `m * 2 ^ q`. Ends are measured in quarters of `2 ^ q`. -/
def roundsTo (m : Nat) (q : Int) (a : Nat) (i : Int) : Bool :=
  let x := crossDecimal a i (q - 2)
  let low := crossBinary (4 * m - if narrowBelow m q then 1 else 2) (q - 2) i
  let high := crossBinary (4 * m + 2) (q - 2) i
  if m % 2 == 0 then low ≤ x && x ≤ high else low < x && x < high

/-- The neighbour of `m * 2 ^ q` on the grid of `10 ^ i` that rounds to it. Of two such
neighbours it is the nearer, and on a tie the even one. -/
def candidate? (m : Nat) (q i : Int) : Option Nat :=
  let value := crossBinary m q i
  let unit := crossDecimal 1 i q
  let floor := value / unit
  let twice := 2 * (value % unit)
  match roundsTo m q floor i, roundsTo m q (floor + 1) i with
  | true, true =>
    if twice < unit || (twice == unit && floor % 2 == 0) then some floor else some (floor + 1)
  | true, false => some floor
  | false, true => some (floor + 1)
  | false, false => none

/-- The number of decimal digits before the point of `n / d`, counted below zero for the zeros
that follow the point. -/
def magnitude (n d : Nat) : Int :=
  if d ≤ n then (Nat.toDigits 10 (n / d)).length
  else 1 - (Nat.toDigits 10 ((d - 1) / n)).length

/-- Tries the grid of `10 ^ i` and then finer ones. -/
def scan (m : Nat) (q : Int) : Nat → Int → Decimal
  | 0, i => ⟨crossBinary m q i / crossDecimal 1 i q, i⟩
  | fuel + 1, i =>
    match candidate? m q i with
    | some a => ⟨a, i⟩
    | none => scan m q fuel (i - 1)

/-- Moves zeros at the end of the digits into the exponent. -/
def trim : Nat → Decimal → Decimal
  | 0, d => d
  | fuel + 1, d =>
    if d.digits ≠ 0 ∧ d.digits % 10 = 0 then trim fuel ⟨d.digits / 10, d.exponent + 1⟩ else d

/-- The shortest decimal of `m * 2 ^ q`. Seventeen digits always suffice, and a carry leaves at
most one zero at the end. -/
def shortest (m : Nat) (q : Int) : Decimal :=
  if m = 0 then ⟨0, 0⟩
  else
    let top := magnitude (scaleUp m q) (scaleUp 1 (-q)) - 1
    trim 1 (scan m q 17 top)

/-- Whether a decimal is exactly `m * 2 ^ q`. -/
def isExactly (d : Decimal) (m : Nat) (q : Int) : Bool :=
  crossDecimal d.digits d.exponent q == crossBinary m q d.exponent

end Decimal

end HiToolchain
