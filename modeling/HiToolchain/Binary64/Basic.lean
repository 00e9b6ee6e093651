import HiToolchain.Scale

/-!
Double precision numbers in exact integer arithmetic. Every operation computes its exact result
as a quotient of naturals and rounds once, to the nearest number and on a tie to the one with an
even significand.
-/

namespace HiToolchain

/-- `finite negative m q` is `m * 2 ^ q` with a sign that zero has too. The numbers that rounding
yields have `m < 2 ^ 53` and `-1074 ≤ q ≤ 971`, with `2 ^ 52 ≤ m` unless `q = -1074`. -/
inductive Binary64 where
  | nan
  | infinity (negative : Bool)
  | finite (negative : Bool) (significand : Nat) (exponent : Int)
  deriving DecidableEq, Repr, Inhabited

/-- The integer nearest to `n / d`, the even one of two. -/
def roundHalfEven (n d : Nat) : Nat :=
  let floor := n / d
  let twice := 2 * (n % d)
  if twice < d || (twice == d && floor % 2 == 0) then floor else floor + 1

/-- The numerator of `n * 2 ^ e`. -/
def scaleUp (n : Nat) (e : Int) : Nat := n * twoTo e.toNat

/-- The exponent of the largest power of two that is at most `n / d`, for positive `n` and `d`. -/
def floorLog2 (n d : Nat) : Int :=
  let guess : Int := (n.log2 : Int) - d.log2
  if scaleUp d guess ≤ scaleUp n (-guess) then guess else guess - 1

namespace Binary64

def leastExponent : Int := -1074

def greatestExponent : Int := 971

def zero (negative : Bool) : Binary64 := finite negative 0 leastExponent

def one : Binary64 := finite false (twoTo 52) (-52)

/-- The number nearest to `n / d`. Half a unit above the greatest number it is an infinity. -/
def ofRatio (negative : Bool) (n d : Nat) : Binary64 :=
  if n = 0 then zero negative
  else
    let q := max (floorLog2 n d - 52) leastExponent
    let m := roundHalfEven (scaleUp n (-q)) (scaleUp d q)
    let (m, q) := if m = twoTo 53 then (twoTo 52, q + 1) else (m, q)
    if greatestExponent < q then infinity negative else finite negative m q

/-- The number nearest to `n * 2 ^ e`. -/
def ofScaled (negative : Bool) (n : Nat) (e : Int) : Binary64 :=
  ofRatio negative (scaleUp n e) (scaleUp 1 (-e))

def ofNat (n : Nat) : Binary64 := ofRatio false n 1

def isNegative : Binary64 → Bool
  | nan => false
  | infinity s => s
  | finite s _ _ => s

def isZero : Binary64 → Bool
  | finite _ m _ => m == 0
  | _ => false

def neg : Binary64 → Binary64
  | nan => nan
  | infinity s => infinity (!s)
  | finite s m q => finite (!s) m q

def abs : Binary64 → Binary64
  | nan => nan
  | infinity _ => infinity false
  | finite _ m q => finite false m q

/-- The numerator of `±m * 2 ^ q` over `2 ^ e`, for `e ≤ q`. -/
def units (negative : Bool) (m : Nat) (q e : Int) : Int :=
  if negative then -(scaleUp m (q - e) : Int) else scaleUp m (q - e)

/-- A sum that vanishes is `+0`, unless both terms are `-0`. -/
def add : Binary64 → Binary64 → Binary64
  | nan, _ => nan
  | _, nan => nan
  | infinity s, infinity t => if s == t then infinity s else nan
  | infinity s, _ => infinity s
  | _, infinity t => infinity t
  | finite s m q, finite t n r =>
    let e := min q r
    let total := units s m q e + units t n r e
    if total = 0 then zero (s && t) else ofScaled (total < 0) total.natAbs e

def sub (x y : Binary64) : Binary64 := add x y.neg

def mul : Binary64 → Binary64 → Binary64
  | nan, _ => nan
  | _, nan => nan
  | infinity s, y => if y.isZero then nan else infinity (s != y.isNegative)
  | x, infinity t => if x.isZero then nan else infinity (x.isNegative != t)
  | finite s m q, finite t n r => ofScaled (s != t) (m * n) (q + r)

def div : Binary64 → Binary64 → Binary64
  | nan, _ => nan
  | _, nan => nan
  | infinity _, infinity _ => nan
  | infinity s, y => infinity (s != y.isNegative)
  | x, infinity t => zero (x.isNegative != t)
  | finite s m q, finite t n r =>
    if n = 0 then
      if m = 0 then nan else infinity (s != t)
    else ofRatio (s != t) (scaleUp m (q - r)) (scaleUp n (r - q))

/-- The whole part, with the sign kept. -/
def trunc : Binary64 → Binary64
  | finite s m q => if 0 ≤ q then finite s m q else ofRatio s (m / twoTo (-q).toNat) 1
  | x => x

/-- Strict order; a NaN is in no relation. -/
def lt : Binary64 → Binary64 → Bool
  | nan, _ => false
  | _, nan => false
  | infinity s, infinity t => s && !t
  | infinity s, _ => s
  | _, infinity t => !t
  | finite s m q, finite t n r => units s m q (min q r) < units t n r (min q r)

/-- Equality of values: the two zeros are equal, and a NaN is equal to nothing. -/
def same : Binary64 → Binary64 → Bool
  | infinity s, infinity t => s == t
  | finite s m q, finite t n r => units s m q (min q r) == units t n r (min q r)
  | _, _ => false

def isIntegral (x : Binary64) : Bool := x.same x.trunc

/-- The number with the given interchange word: sign, eleven bits of biased exponent, fraction. -/
def ofBits (word : Nat) : Binary64 :=
  let fraction : Nat := word % twoTo 52
  let biased : Nat := word / twoTo 52 % twoTo 11
  let negative := word / twoTo 63 % 2 == 1
  if biased = 2047 then
    if fraction = 0 then infinity negative else nan
  else if biased = 0 then finite negative fraction leastExponent
  else finite negative (twoTo 52 + fraction) ((biased : Int) - 1075)

/-- The interchange word. NaN has the quiet word without a payload. -/
def toBits : Binary64 → Nat
  | nan => 0x7ff8000000000001
  | infinity s => s.toNat * twoTo 63 + 2047 * twoTo 52
  | finite s m q =>
    if m < twoTo 52 then s.toNat * twoTo 63 + m
    else s.toNat * twoTo 63 + (q + 1075).toNat * twoTo 52 + (m - twoTo 52)

end Binary64

end HiToolchain
