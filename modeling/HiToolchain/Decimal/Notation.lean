import HiToolchain.Decimal.Shortest

/-!
Decimals as text: positional notation, and notation with an exponent.
-/

namespace HiToolchain

/-- How a decimal is written where its size decides between the two notations. -/
structure NumberStyle where
  /-- From this power of ten of the first digit on there is an exponent. -/
  firstLarge : Int
  /-- Below this power of ten of the first digit there is an exponent. -/
  firstSmall : Int
  /-- The least number of digits of an exponent. -/
  exponentWidth : Nat

namespace Decimal

/-- All digits at their places, with zeros up to the point or after it. -/
def positional (d : Decimal) : String :=
  let cs := d.digitChars
  if 0 ≤ d.exponent then String.ofList (cs ++ List.replicate d.exponent.toNat '0')
  else
    let places := (-d.exponent).toNat
    if places < cs.length then
      String.ofList (cs.take (cs.length - places) ++ '.' :: cs.drop (cs.length - places))
    else String.ofList ('0' :: '.' :: List.replicate (places - cs.length) '0' ++ cs)

/-- One digit before the point and a signed exponent of at least `width` digits. -/
def scientific (width : Nat) (d : Decimal) : String :=
  let fraction := match d.digitChars with
    | c :: [] => [c]
    | c :: cs => c :: '.' :: cs
    | [] => []
  let x := d.leading
  let digits := Nat.toDigits 10 x.natAbs
  String.ofList (fraction ++ 'e' :: (if x < 0 then '-' else '+')
    :: List.replicate (width - digits.length) '0' ++ digits)

def written (style : NumberStyle) (d : Decimal) : String :=
  let x := d.leading
  if x < style.firstSmall || style.firstLarge ≤ x then d.scientific style.exponentWidth
  else d.positional

end Decimal

end HiToolchain
