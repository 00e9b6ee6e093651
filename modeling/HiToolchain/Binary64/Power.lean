import HiToolchain.Binary64.Elementary

/-!
Square roots and powers of double precision numbers. A whole power is a product of repeated
squares whose significands are kept between a half and one and whose exponents are counted
apart, so that only the last step can overflow or underflow. The fraction of an exponent
contributes one more factor, by way of exponential and logarithm.
-/

namespace HiToolchain

/-- The greatest integer whose square is at most `n`. -/
def floorSqrt (n : Nat) : Nat :=
  if n = 0 then 0
  else
    let r := 2 * floorSqrt (n / 4)
    if (r + 1) * (r + 1) ≤ n then r + 1 else r
termination_by n
decreasing_by omega

namespace Binary64

/-- The number nearest to the square root. The root is taken of an integer of at least 108 bits,
and half a unit is added where it is not exact, which is enough to round as the root would. -/
def sqrt : Binary64 → Binary64
  | nan => nan
  | infinity s => if s then nan else infinity false
  | finite s m q =>
    if m = 0 then zero s
    else if s then nan
    else
      let widened := m * twoTo 108
      let e := q - 108
      let (n, e) := if e % 2 = 0 then (widened, e) else (2 * widened, e - 1)
      let root := floorSqrt n
      let sticky := if root * root = n then 0 else 1
      ofScaled false (2 * root + sticky) (e / 2 - 1)

/-- Whole numbers below `2 ^ 53` with a low bit. -/
def isOdd : Binary64 → Bool
  | finite _ m q =>
    if 0 ≤ q then m * twoTo q.toNat < twoTo 53 && (m * twoTo q.toNat) % 2 == 1
    else m % twoTo (-q).toNat == 0 && m / twoTo (-q).toNat % 2 == 1
  | _ => false

/-- A nonzero finite number as a significand of size between a half and one and a power of two. -/
def split (negative : Bool) (m : Nat) (q : Int) : Binary64 × Int :=
  let bits : Int := m.log2 + 1
  (ofScaled negative m (-bits), q + bits)

def half : Binary64 := finite false (twoTo 52) (-53)

/-- `x * 2 ^ e`, rounded once. -/
def scale (x : Binary64) (e : Int) : Binary64 :=
  match x with
  | finite s m q => ofScaled s m (q + e)
  | _ => x

/-- A product under way: significand and power of two. -/
structure Product where
  significand : Binary64
  exponent : Int

/-- Multiplies `acc` by the `n`th power of the number `base * 2 ^ exponent`. Past an exponent of
4096 the result is out of range whatever follows. -/
def powerLoop (acc : Product) (base : Binary64) (exponent : Int) (n : Nat) : Product :=
  if n = 0 then acc
  else if exponent < -4096 || 4096 < exponent then
    { acc with exponent := acc.exponent + exponent }
  else
    let acc := if n % 2 = 1 then ⟨acc.significand.mul base, acc.exponent + exponent⟩ else acc
    let square := base.mul base
    let (square, twice) :=
      if square.lt half then (square.add square, 2 * exponent - 1) else (square, 2 * exponent)
    powerLoop acc square twice (n / 2)
termination_by n
decreasing_by omega

/-- `±m * 2 ^ q` to a power of at least `2 ^ 63` or to an infinite one: only its size matters. -/
def powHuge (x : Binary64) (negativeExponent : Bool) : Binary64 :=
  if x.same one.neg then one
  else if x.abs.lt one == !negativeExponent then zero false
  else infinity false

/-- The power of a positive number to the fraction `n * 2 ^ r` of an exponent, and by how much the
whole part of the exponent grows: a fraction above a half is what is missing to the next whole.
Logarithm, product and exponential are rounded one after the other. -/
def powFraction [Elementary] (x : Binary64) (n : Nat) (r : Int) : Binary64 × Nat :=
  if n = 0 then (one, 0)
  else
    let fraction := ofScaled false n r
    let (fraction, more) := if half.lt fraction then (fraction.sub one, 1) else (fraction, 0)
    (Elementary.exp (fraction.mul (Elementary.log x)), more)

/-- The whole part of `m * 2 ^ q`. -/
def wholePart (m : Nat) (q : Int) : Nat :=
  if 0 ≤ q then m * twoTo q.toNat else m / twoTo (-q).toNat

/-- What `m * 2 ^ q` has beyond its whole part, in units of `2 ^ q`. -/
def fractionPart (m : Nat) (q : Int) : Nat :=
  if 0 ≤ q then 0 else m % twoTo (-q).toNat

/-- The power of a finite nonzero number to a finite nonzero exponent `±n * 2 ^ r` that is not
a half. A negative number has whole powers only. -/
def powFinite [Elementary] (s : Bool) (m : Nat) (q : Int) (t : Bool) (n : Nat) (r : Int) :
    Binary64 :=
  let whole := wholePart n r
  let rest := fractionPart n r
  if rest ≠ 0 && s then nan
  else if twoTo 63 ≤ whole then powHuge (finite s m q) t
  else
    let (factor, more) := powFraction (finite s m q) rest r
    let (base, exponent) := split s m q
    let p := powerLoop ⟨factor, 0⟩ base exponent (whole + more)
    if t then scale (one.div p.significand) (-p.exponent) else scale p.significand p.exponent

/-- A power of a zero: zero or infinite, with the sign of the base for odd exponents only. -/
def powZero (negativeBase : Bool) (y : Binary64) : Binary64 :=
  let negative := negativeBase && y.isOdd
  if y.isNegative then infinity negative else zero negative

/-- `x` to the power `y`. -/
def pow [Elementary] (x y : Binary64) : Binary64 :=
  if y.isZero || x.same one then one
  else if y.same one then x
  else match x, y with
    | nan, _ => nan
    | _, nan => nan
    | finite s 0 _, y => powZero s y
    | x, infinity t => powHuge x t
    | infinity s, y =>
      if s then powZero true y.neg
      else if y.isNegative then zero false else infinity false
    | finite s m q, finite t n r =>
      if y.same half then sqrt x
      else if y.same half.neg then one.div (sqrt x)
      else powFinite s m q t n r

end Binary64

end HiToolchain
