import HiToolchain.Text.Utf8
import HiToolchain.Yaml.Token

/-!
Reading the tokens that start with a sign of their own: anchors, aliases, tags and directives.
-/

namespace HiToolchain.Yaml

/-- Whether an anchor or alias may end here. -/
def endsAnchor (rest : List Char) : Bool :=
  isBlankOrEnd rest || rest.head?.any ("?:,]\x7d%@`".toList.contains ·)

/-- Reads the name of an anchor or alias after its sign. -/
def readAnchor (i : Input) : Except Fault (String × Input) :=
  let (name, i) := (i.skip 1).readWhile isNameChar
  if name.isEmpty || !endsAnchor i.rest then .error (i.fault .anchorName)
  else .ok (String.ofList name, i)

/-- Characters of a tag. -/
def isUriChar (c : Char) : Bool :=
  isNameChar c || ";/?:@&=+$.,!~*'()[]".toList.contains c

def hexOctet? (a b : Char) : Option UInt8 := do
  return UInt8.ofNat (16 * (← hexValue? a) + (← hexValue? b))

/-- The number of octets in the UTF-8 sequence that an octet starts. -/
def sequenceLength? (octet : UInt8) : Option Nat :=
  if octet &&& 0x80 == 0x00 then some 1
  else if octet &&& 0xe0 == 0xc0 then some 2
  else if octet &&& 0xf0 == 0xe0 then some 3
  else if octet &&& 0xf8 == 0xf0 then some 4
  else none

/-- Reads escaped octets of one character; `missing` octets are still to come. -/
def readOctets : (missing : Nat) → Input → Except Fault (List UInt8 × Input)
  | 0, i => .ok ([], i)
  | missing + 1, i =>
    match i.rest with
    | '%' :: a :: b :: _ =>
      match hexOctet? a b with
      | none => .error (i.fault .uriOctet)
      | some octet =>
        if octet &&& 0xc0 != 0x80 then .error (i.fault .uriTrailingOctet)
        else do
          let (octets, i) ← readOctets missing (i.skip 3)
          return (octet :: octets, i)
    | _ => .error (i.fault .uriOctet)

/-- Reads one escaped character of a tag. -/
def readUriEscape (i : Input) : Except Fault (List Char × Input) :=
  match i.rest with
  | '%' :: a :: b :: _ =>
    match hexOctet? a b with
    | none => .error (i.fault .uriOctet)
    | some octet =>
      match sequenceLength? octet with
      | none => .error (i.fault .uriLeadingOctet)
      | some n => do
        let (octets, i) ← readOctets (n - 1) (i.skip 3)
        return ((Utf8.decode ⟨(octet :: octets).toArray⟩).toList, i)
  | _ => .error (i.fault .uriOctet)

/-- Reads the characters of a tag. -/
def readUriChars : Nat → Input → Except Fault (List Char × Input)
  | 0, i => .ok ([], i)
  | fuel + 1, i =>
    match i.rest with
    | [] => .ok ([], i)
    | c :: _ =>
      if c == '%' then do
        let (chars, i) ← readUriEscape i
        let (more, i) ← readUriChars fuel i
        return (chars ++ more, i)
      else if isUriChar c then do
        let (more, i) ← readUriChars fuel (i.skip 1)
        return (c :: more, i)
      else .ok ([], i)

/-- Reads a tag whose start `head` was read as a handle; it may not be empty. -/
def readUri (head : List Char) (i : Input) : Except Fault (String × Input) := do
  let (chars, i) ← readUriChars (i.rest.length + 1) i
  if head.isEmpty && chars.isEmpty then throw (i.fault .tagUri)
  else return (String.ofList (head.drop 1 ++ chars), i)

/-- Reads a handle: a name between exclamation marks, or as much of one as there is. -/
def readHandle (i : Input) : Except Fault (List Char × Input) :=
  if i.startsWith '!' then
    let (name, i) := (i.skip 1).readWhile isNameChar
    if i.startsWith '!' then .ok ('!' :: name ++ ['!'], i.skip 1) else .ok ('!' :: name, i)
  else .error (i.fault .tagStart)

/-- Reads a tag in angle brackets. -/
def readVerbatimTag (i : Input) : Except Fault (TokenKind × Input) := do
  let (suffix, i) ← readUri [] (i.skip 2)
  if i.startsWith '>' then return (.tag "" suffix, i.skip 1) else throw (i.fault .tagClosing)

/-- Reads a tag with a handle, or with the primary handle. A lone exclamation mark is a tag. -/
def readHandledTag (i : Input) : Except Fault (TokenKind × Input) := do
  let (handle, i) ← readHandle i
  if 1 < handle.length && handle.getLast? == some '!' then
    let (suffix, i) ← readUri [] i
    return (.tag (String.ofList handle) suffix, i)
  else
    let (suffix, i) ← readUri handle i
    return (if suffix.isEmpty then .tag "" "!" else .tag "!" suffix, i)

def readTag (i : Input) : Except Fault (TokenKind × Input) := do
  let (kind, i) ←
    if (i.rest.drop 1).head? == some '<' then readVerbatimTag i else readHandledTag i
  if isBlankOrEnd i.rest then return (kind, i) else throw (i.fault .tagEnd)

/-- Reads a part of a version, of one or two digits. -/
def readVersionPart (i : Input) : Except Fault (Nat × Input) :=
  let (digits, after) := i.readWhile isDigit
  if digits.isEmpty then .error (i.fault .versionNumber)
  else if 2 < digits.length then .error (i.fault .versionLength)
  else .ok (digitsValue digits, after)

def readVersion (i : Input) : Except Fault (TokenKind × Input) := do
  let (major, i) ← readVersionPart (i.skipWhile isBlank)
  if i.startsWith '.' then
    let (minor, i) ← readVersionPart (i.skip 1)
    return (.version major minor, i)
  else throw (i.fault .versionSeparator)

def readTagDirective (i : Input) : Except Fault (TokenKind × Input) := do
  let (handle, i) ← readHandle (i.skipWhile isBlank)
  if 1 < handle.length ∧ handle.getLast? ≠ some '!' then throw (i.fault .tagStart)
  if !(i.rest.head?.any isBlank) then throw (i.fault .tagDirectiveBlank)
  let (prefixText, i) ← readUri [] (i.skipWhile isBlank)
  if !isBlankOrEnd i.rest then throw (i.fault .tagDirectiveEnd)
  return (.tagHandle (String.ofList handle) prefixText, i)

/-- Reads a directive with its line. -/
def readDirective (i : Input) : Except Fault (TokenKind × Input) := do
  let (name, i) := (i.skip 1).readWhile isNameChar
  if name.isEmpty then throw (i.fault .directiveName)
  if !isBlankOrEnd i.rest then throw (i.fault .directiveNameEnd)
  let (kind, i) ←
    if name = "YAML".toList then readVersion i
    else if name = "TAG".toList then readTagDirective i
    else throw (i.fault .unknownDirective)
  let i := (i.skipWhile isBlank).skipComment
  if i.rest.head?.any (!isBreak ·) then throw (i.fault .directiveEnd)
  return (kind, i.readBreak.2)

end HiToolchain.Yaml
