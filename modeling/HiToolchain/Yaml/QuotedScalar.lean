import HiToolchain.Yaml.Gap

/-!
Reading scalars in quotes. Between single quotes a quote is written twice; between double quotes
a backslash starts an escape, and before a line break it keeps the lines together.
-/

namespace HiToolchain.Yaml

namespace QuotedScalar

/-- What an escape of one letter stands for. -/
def shortEscape? (c : Char) : Option Char :=
  match c with
  | '0' => some (Char.ofNat 0)
  | 'a' => some (Char.ofNat 7)
  | 'b' => some (Char.ofNat 8)
  | 't' | '\t' => some '\t'
  | 'n' => some '\n'
  | 'v' => some (Char.ofNat 0x0b)
  | 'f' => some (Char.ofNat 0x0c)
  | 'r' => some '\r'
  | 'e' => some (Char.ofNat 0x1b)
  | ' ' => some ' '
  | '"' => some '"'
  | '\'' => some '\''
  | '\\' => some '\\'
  | 'N' => some (Char.ofNat 0x85)
  | '_' => some (Char.ofNat 0xa0)
  | 'L' => some (Char.ofNat 0x2028)
  | 'P' => some (Char.ofNat 0x2029)
  | _ => none

/-- The number of digits of an escape by code point. -/
def codeLength? (c : Char) : Option Nat :=
  match c with
  | 'x' => some 2
  | 'u' => some 4
  | 'U' => some 8
  | _ => none

/-- Reads the digits of an escape by code point. -/
def codePoint? (length : Nat) (digits : List Char) : Except Problem Char :=
  let digits := digits.take length
  if digits.length < length then .error .hexDigits
  else match hexNumber? digits with
    | none => .error .hexDigits
    | some n => if n.isValidChar then .ok (Char.ofNat n) else .error .invalidCodePoint

/-- How a run of characters without blanks ended. -/
inductive Stop where
  | closed
  | gap
  | escapedBreak
  deriving DecidableEq, Repr

/-- What stands at the start of a run: its end, or one character and the characters it takes. -/
inductive Item where
  | stop (stop : Stop) (input : Input)
  | char (c : Char) (input : Input)

/-- Reads an escape after its backslash. -/
def readEscape (i : Input) : Except Fault Item :=
  match i.rest.drop 1 with
  | [] => .error (i.fault .unknownEscape)
  | e :: digits =>
    if isBreak e then .ok (.stop .escapedBreak ((i.skip 1).readBreak).2)
    else match shortEscape? e, codeLength? e with
      | some d, _ => .ok (.char d (i.skip 2))
      | none, some n =>
        match codePoint? n digits with
        | .ok d => .ok (.char d (i.skip (2 + n)))
        | .error problem => .error (i.fault problem)
      | none, none => .error (i.fault .unknownEscape)

def readItem (single : Bool) (i : Input) : Except Fault Item :=
  match i.rest with
  | [] => .ok (.stop .gap i)
  | c :: rest =>
    if isBlank c || isBreak c then .ok (.stop .gap i)
    else if single && c == '\'' && rest.head? == some '\'' then .ok (.char c (i.skip 2))
    else if c == (if single then '\'' else '"') then .ok (.stop .closed (i.skip 1))
    else if !single && c == '\\' then readEscape i
    else .ok (.char c (i.skip 1))

/-- Reads characters up to a blank, a line break, the closing quote or an escaped break. -/
def readRun (single : Bool) : Nat → Input → Except Fault (List Char × Stop × Input)
  | 0, i => .ok ([], .gap, i)
  | fuel + 1, i => do
    match ← readItem single i with
    | .stop stop i => return ([], stop, i)
    | .char c i =>
      let (chars, stop, i) ← readRun single fuel i
      return (c :: chars, stop, i)

/-- Reads runs and the gaps between them up to the closing quote. -/
def readRuns (single : Bool) : Nat → Input → Except Fault (List Char × Input)
  | 0, i => .error (i.fault .endOfStream)
  | fuel + 1, i =>
    if i.atDocumentIndicator then .error (i.fault .documentIndicator)
    else if i.rest.isEmpty then .error (i.fault .endOfStream)
    else do
      let (run, stop, i) ← readRun single (i.rest.length + 1) i
      let rest (gap : Gap) : Except Fault (List Char × Input) := do
        let (gap, i) ← gap.read 0 i
        let (value, i) ← readRuns single fuel i
        return (run ++ gap.text ++ value, i)
      match stop with
      | .closed => return (run, i)
      | .gap => rest .empty
      | .escapedBreak => rest .escapedBreak

/-- Reads a scalar from its opening quote on. -/
def read (single : Bool) (i : Input) : Except Fault (List Char × Input) :=
  readRuns single (i.rest.length + 1) (i.skip 1)

end QuotedScalar

end HiToolchain.Yaml
