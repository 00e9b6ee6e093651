import HiToolchain.Binary64.Power

/-!
An exponential and a logarithm in double precision arithmetic alone: the argument is reduced to a
short interval, where a polynomial comes within a unit in the last place.
-/

namespace HiToolchain.Binary64

/-- The value at `x` of a polynomial, given by its coefficients from the constant one on. -/
def polynomial (coefficients : List Binary64) (x : Binary64) : Binary64 :=
  coefficients.foldr (fun c rest => c.add (x.mul rest)) (zero false)

def ofInt (n : Int) : Binary64 := ofRatio (n < 0) n.natAbs 1

/-- The whole part of a finite number as an integer. -/
def toInt : Binary64 → Int
  | finite s m q => if s then -(wholePart m q) else wholePart m q
  | _ => 0

namespace Portable

/-- The logarithm of two, up to its low bits: multiples by small whole numbers are exact. -/
def ln2High : Binary64 := ofBits 0x3fe62e42fee00000

/-- What the high part lacks of the logarithm of two. -/
def ln2Low : Binary64 := ofBits 0x3dea39ef35793c76

def log2e : Binary64 := ofBits 0x3ff71547652b82fe

def sqrtHalf : Binary64 := ofBits 0x3fe6a09e667f3bcd

def two : Binary64 := one.add one

/-- Coefficients of the odd powers of the square of `f / (2 + f)`. -/
def logOdd : List Binary64 :=
  [0x3fe5555555555593, 0x3fd2492494229359, 0x3fc7466496cb03de, 0x3fc2f112df3e5244].map ofBits

/-- Coefficients of its even powers. -/
def logEven : List Binary64 :=
  [0x3fd999999997fa04, 0x3fcc71c51d8e78af, 0x3fc39a09d078c69f].map ofBits

/-- The logarithm of `(1 + f) * 2 ^ k`, where `1 + f` lies between the square roots of a half and
of two. -/
def logReduced (f k : Binary64) : Binary64 :=
  let s := f.div (two.add f)
  let s2 := s.mul s
  let s4 := s2.mul s2
  let rest := (s2.mul (polynomial logOdd s4)).add (s4.mul (polynomial logEven s4))
  let square := (half.mul f).mul f
  let low := (s.mul (square.add rest)).add (k.mul ln2Low)
  (k.mul ln2High).sub ((square.sub low).sub f)

def log : Binary64 → Binary64
  | nan => nan
  | infinity s => if s then nan else infinity false
  | finite s m q =>
    if m = 0 then infinity true
    else if s then nan
    else
      let (x, k) := split false m q
      let (x, k) := if x.lt sqrtHalf then (x.add x, k - 1) else (x, k)
      logReduced (x.sub one) (ofInt k)

/-- Above this number the exponential is infinite. -/
def expOverflow : Binary64 := ofBits 0x40862e42fefa39ef

/-- Below this number the exponential is zero. -/
def expUnderflow : Binary64 := ofBits 0xc0874910d52d3051

/-- Below this size `1 + x` is the exponential. -/
def expTiny : Binary64 := finite false (twoTo 52) (-80)

def expCoefficients : List Binary64 :=
  [0x3fc5555555555555, 0xbf66c16c16bebd93, 0x3f11566aaf25de2c, 0xbebbbd41c5d26bf1,
    0x3e66376972bea4d0].map ofBits

/-- The exponential of `high - low`, times `2 ^ k`. -/
def expReduced (high low : Binary64) (k : Int) : Binary64 :=
  let r := high.sub low
  let t := r.mul r
  let c := r.sub (t.mul (polynomial expCoefficients t))
  let y := one.sub ((low.sub ((r.mul c).div (two.sub c))).sub high)
  y.scale k

def exp (x : Binary64) : Binary64 :=
  match x with
  | nan => nan
  | infinity s => if s then zero false else infinity false
  | finite s .. =>
    if expOverflow.lt x then infinity false
    else if x.lt expUnderflow then zero false
    else if x.abs.lt expTiny then one.add x
    else
      let scaled := log2e.mul x
      let k := (if s then scaled.sub half else scaled.add half).toInt
      expReduced (x.sub ((ofInt k).mul ln2High)) ((ofInt k).mul ln2Low) k

end Portable

instance : Elementary where
  exp := Portable.exp
  log := Portable.log

end HiToolchain.Binary64
