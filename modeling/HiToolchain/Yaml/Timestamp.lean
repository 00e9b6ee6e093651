import HiToolchain.Yaml.Chars

/-!
Timestamps: a date with a four-digit year, alone or followed by a time of day. After `T` or `t`
the time has a zone, after blanks it has none.
-/

namespace HiToolchain.Yaml

namespace Timestamp

/-- Reads a number of one or two digits. -/
def shortNumber? : List Char → Option (Nat × List Char)
  | a :: b :: rest =>
    if !isDigit a then none
    else if isDigit b then some (digitsValue [a, b], rest)
    else some (digitsValue [a], b :: rest)
  | [a] => if isDigit a then some (digitsValue [a], []) else none
  | [] => none

/-- Reads a number below `bound`. -/
def numberBelow? (bound : Nat) (cs : List Char) : Option (List Char) := do
  let (n, rest) ← shortNumber? cs
  guard (n < bound)
  return rest

def expect? (c : Char) : List Char → Option (List Char)
  | d :: rest => if c == d then some rest else none
  | [] => none

def isLeap (year : Nat) : Bool :=
  year % 4 == 0 && (year % 100 != 0 || year % 400 == 0)

def daysIn (year month : Nat) : Nat :=
  if month == 2 then if isLeap year then 29 else 28
  else if month == 4 || month == 6 || month == 9 || month == 11 then 30
  else 31

/-- Reads a date that exists. -/
def date? (cs : List Char) : Option (List Char) := do
  let year := cs.takeWhile isDigit
  guard (year.length = 4)
  let rest ← expect? '-' (cs.drop 4)
  let (month, rest) ← shortNumber? rest
  guard (1 ≤ month ∧ month ≤ 12)
  let rest ← expect? '-' rest
  let (day, rest) ← shortNumber? rest
  guard (1 ≤ day ∧ day ≤ daysIn (digitsValue year) month)
  return rest

/-- Skips the fraction of a second. A mark without digits after it is none. -/
def skipFraction : List Char → List Char
  | mark :: d :: rest =>
    if (mark == '.' || mark == ',') && isDigit d then rest.dropWhile isDigit
    else mark :: d :: rest
  | cs => cs

def time? (cs : List Char) : Option (List Char) := do
  let rest ← numberBelow? 24 cs
  let rest ← expect? ':' rest
  let rest ← numberBelow? 60 rest
  let rest ← expect? ':' rest
  let rest ← numberBelow? 60 rest
  return skipFraction rest

/-- Whether a text is `Z` or an offset with sign, two digits, colon and two digits. -/
def isZone : List Char → Bool
  | ['Z'] => true
  | [sign, h, h', ':', m, m'] =>
    (sign == '+' || sign == '-') && [h, h', m, m'].all isDigit
      && digitsValue [h, h'] ≤ 24 && digitsValue [m, m'] ≤ 60
  | _ => false

end Timestamp

/-- Whether a text reads as a timestamp. -/
def isTimestamp (cs : List Char) : Bool :=
  match Timestamp.date? cs with
  | none => false
  | some [] => true
  | some (c :: rest) =>
    if c == 'T' || c == 't' then (Timestamp.time? rest).any Timestamp.isZone
    else if c == ' ' then (Timestamp.time? (rest.dropWhile (· == ' '))).any List.isEmpty
    else false

end HiToolchain.Yaml
