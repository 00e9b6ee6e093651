import HiToolchain.Text.Hex

/-!
Number literals in kind declarations. No declaration has a place for a number, but a number is
one token all the same, and a malformed one has a diagnostic of its own.
-/

namespace HiToolchain.Kinds

/-- How the digits of a number are to be read. -/
inductive Radix where
  | decimal
  /-- Octal by a leading zero alone, which decimals with a fraction may have too. -/
  | leadingZero
  | octal
  | binary
  | hexadecimal
  deriving DecidableEq, Repr

namespace Radix

def base : Radix → Nat
  | decimal => 10
  | leadingZero => 8
  | octal => 8
  | binary => 2
  | hexadecimal => 16

def name : Radix → String
  | decimal => "decimal literal"
  | leadingZero => "octal literal"
  | octal => "octal literal"
  | binary => "binary literal"
  | hexadecimal => "hexadecimal literal"

/-- The radix of a number and the number of characters that announce it. -/
def ofStart (cs : List Char) : Radix × Nat :=
  match cs with
  | '0' :: 'x' :: _ | '0' :: 'X' :: _ => (hexadecimal, 2)
  | '0' :: 'o' :: _ | '0' :: 'O' :: _ => (octal, 2)
  | '0' :: 'b' :: _ | '0' :: 'B' :: _ => (binary, 2)
  | '0' :: _ => (leadingZero, 1)
  | _ => (decimal, 0)

/-- The digits that are read on. Wrong ones are read too, and complained about later. -/
def takes (r : Radix) (c : Char) : Bool :=
  if r = hexadecimal then (hexValue? c).isSome else c.isDigit

end Radix

/-- What can be wrong with a number. -/
inductive NumberProblem where
  | radixPoint (radix : Radix)
  | noDigits (radix : Radix)
  | decimalExponent (mark : Char)
  | binaryExponent (mark : Char)
  | emptyExponent
  | missingExponent
  | wrongDigit (digit : Char) (radix : Radix)
  | separator
  deriving DecidableEq, Repr

namespace NumberProblem

def message : NumberProblem → String
  | radixPoint radix => "invalid radix point in " ++ radix.name
  | noDigits radix => radix.name ++ " has no digits"
  | decimalExponent mark => "'" ++ mark.toString ++ "' exponent requires decimal mantissa"
  | binaryExponent mark => "'" ++ mark.toString ++ "' exponent requires hexadecimal mantissa"
  | emptyExponent => "exponent has no digits"
  | missingExponent => "hexadecimal mantissa requires a 'p' exponent"
  | wrongDigit digit radix => "invalid digit '" ++ digit.toString ++ "' in " ++ radix.name
  | separator => "'_' must separate successive digits"

end NumberProblem

/-- The parts of a number, each with the digits and separators it is written with. -/
structure NumberParts where
  radix : Radix
  /-- The length of what announces the radix. -/
  announced : Nat
  whole : List Char
  fraction : Option (List Char)
  /-- The mark of the exponent, whether a sign follows, and the digits. -/
  exponent : Option (Char × Bool × List Char)
  deriving Repr

namespace NumberParts

def ofChars (cs : List Char) : NumberParts :=
  let (radix, announced) := Radix.ofStart cs
  let isPart (c : Char) := radix.takes c || c == '_'
  let rest := cs.drop announced
  let whole := rest.takeWhile isPart
  let rest := rest.dropWhile isPart
  let fraction := match rest with
    | '.' :: rest => some (rest.takeWhile isPart)
    | _ => none
  let rest := match rest with
    | '.' :: rest => rest.dropWhile isPart
    | rest => rest
  let exponent := match rest with
    | mark :: rest =>
      if "eEpP".toList.contains mark then
        let signed := rest.head? == some '+' || rest.head? == some '-'
        some (mark, signed, (rest.drop signed.toNat).takeWhile fun c => c.isDigit || c == '_')
      else none
    | [] => none
  ⟨radix, announced, whole, fraction, exponent⟩

/-- The length up to the exponent. -/
def mantissaLength (n : NumberParts) : Nat :=
  n.announced + n.whole.length + (n.fraction.map (1 + ·.length)).getD 0

def length (n : NumberParts) : Nat :=
  n.mantissaLength + (n.exponent.map fun (_, signed, digits) =>
    1 + signed.toNat + digits.length).getD 0

def hasDigit (cs : List Char) : Bool := cs.any (· != '_')

/-- The digits of whole part and fraction. -/
def mantissa (n : NumberParts) : List Char :=
  n.whole ++ n.fraction.getD []

/-- A number with neither fraction nor exponent. -/
def isInteger (n : NumberParts) : Bool :=
  n.fraction.isNone && n.exponent.isNone

/-- The first digit that is not one of the radix. -/
def wrongDigit? (n : NumberParts) : Option Char :=
  n.whole.find? fun c => (hexValue? c).any (n.radix.base ≤ ·)

/-- Whether every separator has a digit on either side. What announces a radix counts as one. -/
def separatorsFit (isDigit : Char → Bool) : (afterDigit : Bool) → List Char → Bool
  | _, [] => true
  | afterDigit, c :: rest =>
    if c == '_' then
      afterDigit && rest.head?.any isDigit && separatorsFit isDigit false rest
    else separatorsFit isDigit (isDigit c) rest

def hasSeparator (n : NumberParts) : Bool :=
  n.mantissa.contains '_' || n.exponent.any fun (_, _, digits) => digits.contains '_'

/-- What is wrong with the number at the start of a text, in the order in which it shows, each
with the number of characters read by then. -/
def problems (n : NumberParts) (cs : List Char) : List (Nat × NumberProblem) :=
  let here (place : Nat) (problem : NumberProblem) (wrong : Bool) :=
    if wrong then [(place, problem)] else []
  here (n.announced + n.whole.length + 1) (.radixPoint n.radix)
      (n.fraction.isSome && (n.radix == .octal || n.radix == .binary))
    ++ here n.mantissaLength (.noDigits n.radix)
      (n.radix != .leadingZero && !hasDigit n.mantissa)
    ++ (match n.exponent with
      | some (mark, _, digits) =>
        here n.mantissaLength (.decimalExponent mark)
            (mark.toLower == 'e' && n.radix != .decimal && n.radix != .leadingZero)
          ++ here n.mantissaLength (.binaryExponent mark)
            (mark.toLower == 'p' && n.radix != .hexadecimal)
          ++ here n.length .emptyExponent (!hasDigit digits)
      | none => here n.length .missingExponent (n.radix == .hexadecimal && n.fraction.isSome))
    ++ (match n.wrongDigit? with
      | some digit => here n.length (.wrongDigit digit n.radix) n.isInteger
      | none => [])
    ++ here n.length .separator
      (n.hasSeparator && !separatorsFit n.radix.takes (n.announced == 2)
        ((cs.take n.length).drop (if n.announced == 2 then 2 else 0)))

end NumberParts

end HiToolchain.Kinds
