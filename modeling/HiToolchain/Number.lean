import HiToolchain.Binary64.Power
import HiToolchain.Decimal.Notation
import HiToolchain.Fault
import HiToolchain.Text.Digits

/-!
Numbers of the language: the value of a literal and the text of a value.
-/

namespace HiToolchain

/-- Numbers that are not whole have an exponent outside of `1e-4` to `1e6`. -/
def generalStyle : NumberStyle := ⟨6, -4, 2⟩

namespace Binary64

/-- Whole values below this bound are written without an exponent. -/
def positionalBound : Binary64 := ofNat (tenTo 21)

/-- The text of a value: its shortest digits, in positional notation for whole numbers below
`1e21`. -/
def text : Binary64 → String
  | nan => "NaN"
  | infinity s => if s then "-Infinity" else "Infinity"
  | finite s m q =>
    let d := Decimal.shortest m q
    let v := finite s m q
    let body :=
      if v.isIntegral && v.abs.lt positionalBound then d.positional else d.written generalStyle
    if s then "-" ++ body else body

end Binary64

namespace Literal

def isDigits (digits : String) : Bool :=
  !digits.isEmpty && digits.toList.all isDigit

/-- A literal denotes the number nearest to its digits. Other text has no value, and neither
have digits too great for a finite number. -/
def value? (digits : String) : Option Binary64 :=
  if isDigits digits then
    match Binary64.ofNat (digitsValue digits.toList) with
    | .finite s m q => some (.finite s m q)
    | _ => none
  else none

/-- The value of a literal in a program. -/
def value (digits : String) (span : Span) : Except EvalFault Binary64 :=
  match value? digits with
  | some v => .ok v
  | none => .error ⟨.malformedNumber digits, span⟩

end Literal

end HiToolchain
