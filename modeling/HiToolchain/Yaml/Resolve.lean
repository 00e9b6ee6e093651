import HiToolchain.Scale
import HiToolchain.Yaml.Timestamp

/-!
What an unquoted text reads as: null, a boolean, a number, a timestamp, or else a string.
-/

namespace HiToolchain.Yaml

/-- The types of scalars. -/
inductive ScalarType where
  | null
  | bool
  | int
  | float
  | timestamp
  | string
  deriving DecidableEq, Repr

namespace ScalarType

def tag : ScalarType → String
  | null => "!!null"
  | bool => "!!bool"
  | int => "!!int"
  | float => "!!float"
  | timestamp => "!!timestamp"
  | string => "!!str"

end ScalarType

/-- Words with a meaning of their own. -/
def reservedWord? (s : String) : Option ScalarType :=
  if s ∈ ["", "~", "null", "Null", "NULL"] then some .null
  else if s ∈ ["y", "Y", "yes", "Yes", "YES", "true", "True", "TRUE", "on", "On", "ON",
      "n", "N", "no", "No", "NO", "false", "False", "FALSE", "off", "Off", "OFF"] then some .bool
  else if s ∈ [".nan", ".NaN", ".NAN", ".inf", ".Inf", ".INF", "+.inf", "+.Inf", "+.INF",
      "-.inf", "-.Inf", "-.INF"] then some .float
  else none

/-- Splits off a sign; true for minus. -/
def splitSign : List Char → Option Bool × List Char
  | '-' :: rest => (some true, rest)
  | '+' :: rest => (some false, rest)
  | cs => (none, cs)

/-- The number that digits denote in a base. -/
def baseValue? (base : Nat) (digits : List Char) : Option Nat :=
  digits.foldlM (fun n c => do
    let d ← hexValue? c
    guard (d < base)
    return base * n + d) 0

/-- An unsigned number with its base prefix: `0x`, `0o`, `0b`, or a zero for octal. -/
def prefixedValue? : List Char → Option Nat
  | [] => none
  | '0' :: p :: d :: rest =>
    match p with
    | 'b' | 'B' => baseValue? 2 (d :: rest)
    | 'o' | 'O' => baseValue? 8 (d :: rest)
    | 'x' | 'X' => baseValue? 16 (d :: rest)
    | _ => baseValue? 8 (p :: d :: rest)
  | '0' :: rest => baseValue? 8 rest
  | cs => baseValue? 10 cs

/-- Whether a signed number fits 64 bits: with a sign as a signed word, without one also as an
unsigned word. -/
def fitsWord : Option Bool → Nat → Bool
  | some true, n => n ≤ twoTo 63
  | some false, n => n < twoTo 63
  | none, n => n < twoTo 64

/-- Whether a text is an integer of 64 bits by its base prefix. -/
def isPrefixedInt (cs : List Char) : Bool :=
  let (sign, digits) := splitSign cs
  (prefixedValue? digits).any (fitsWord sign)

/-- Whether a text is a binary integer after `0b`, where a sign may stand before the digits, or
after `-0b`. -/
def isBinaryInt : List Char → Bool
  | '0' :: 'b' :: rest =>
    let (sign, digits) := splitSign rest
    !digits.isEmpty && (baseValue? 2 digits).any (fitsWord sign)
  | '-' :: '0' :: 'b' :: digits =>
    !digits.isEmpty && (baseValue? 2 digits).any (fitsWord (some true))
  | _ => false

/-- A decimal number: all its digits and the power of ten of the last one. -/
structure DecimalText where
  digits : List Char
  exponent : Int

/-- Reads an exponent; the text ends with it. -/
def exponent? : List Char → Option Int
  | [] => some 0
  | e :: rest =>
    if e == 'e' || e == 'E' then
      let (sign, digits) := splitSign rest
      if digits.isEmpty || !digits.all isDigit then none
      else
        let n : Int := digitsValue digits
        some (if sign = some true then -n else n)
    else none

/-- Reads a decimal number with an optional point and exponent. -/
def decimalText? (cs : List Char) : Option DecimalText := do
  let cs := (splitSign cs).2
  let whole := cs.takeWhile isDigit
  let rest := cs.dropWhile isDigit
  let (fraction, rest) := match rest with
    | '.' :: after => (after.takeWhile isDigit, after.dropWhile isDigit)
    | _ => ([], rest)
  guard (¬ (whole.isEmpty ∧ fraction.isEmpty))
  let e ← exponent? rest
  return ⟨whole ++ fraction, e - fraction.length⟩

/-- Whether a decimal number rounds to a finite double. -/
def DecimalText.isFinite (d : DecimalText) : Bool :=
  let n := digitsValue d.digits
  let size : Int := (d.digits.dropWhile (· == '0')).length + d.exponent
  n == 0 || size < 300
    || (size < 320
      && n * tenTo d.exponent.toNat < (twoTo 1024 - twoTo 970) * tenTo (-d.exponent).toNat)

def isFloat (cs : List Char) : Bool :=
  (decimalText? cs).any DecimalText.isFinite

/-- Whether every underscore stands between digits. -/
def separatesDigits : Option Char → List Char → Bool
  | last, [] => last != some '_'
  | last, c :: rest =>
    if c == '_' then last.any isDigit && separatesDigits (some c) rest
    else (last != some '_' || isDigit c) && separatesDigits (some c) rest

def withoutUnderscores (cs : List Char) : List Char :=
  cs.filter (· != '_')

/-- The type that a text without quotes has, where timestamps are told apart from strings or
not. -/
def resolveWith (timestamps : Bool) (s : String) : ScalarType :=
  match reservedWord? s with
  | some t => t
  | none =>
    let cs := s.toList
    let plain := withoutUnderscores cs
    match cs with
    | [] => .null
    | c :: _ =>
      if c == '.' then
        if separatesDigits none cs && isFloat plain then .float else .string
      else if c == '+' || c == '-' || isDigit c then
        if timestamps && isTimestamp cs then .timestamp
        else if isPrefixedInt plain then .int
        else if isFloat plain then .float
        else if isBinaryInt plain then .int
        else .string
      else .string

/-- The type that a text without quotes has. -/
def resolve (s : String) : ScalarType := resolveWith true s

/-- A part of a number in base sixty: a colon and one or two digits below sixty. -/
def skipSixtieth? : List Char → Option (List Char)
  | ':' :: a :: b :: rest =>
    if isDigit b && '0' ≤ a && a ≤ '5' then some rest
    else if isDigit a then some (b :: rest)
    else none
  | [':', a] => if isDigit a then some [] else none
  | _ => none

/-- Skips as many such parts as there are and tells whether there was one. -/
def skipSixtieths : Nat → List Char → Bool × List Char
  | 0, cs => (false, cs)
  | fuel + 1, cs =>
    match skipSixtieth? cs with
    | some rest => (true, (skipSixtieths fuel rest).2)
    | none => (false, cs)

/-- Whether older readers take a text for a number in base sixty. -/
def isBaseSixty (cs : List Char) : Bool :=
  match (splitSign cs).2 with
  | [] => false
  | d :: rest =>
    let (found, rest) := skipSixtieths cs.length (rest.dropWhile fun c => isDigit c || c == '_')
    isDigit d && found && match rest with
      | [] => true
      | mark :: digits => mark == '.' && digits.all fun c => isDigit c || c == '_'

/-- Whether a text without quotes would not be read as a string everywhere. -/
def needsQuotes (s : String) : Bool :=
  resolve s != .string || isBaseSixty s.toList

end HiToolchain.Yaml
