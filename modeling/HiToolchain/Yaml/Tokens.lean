import HiToolchain.Yaml.Block
import HiToolchain.Yaml.Plain
import HiToolchain.Yaml.QuotedScalar
import HiToolchain.Yaml.Tag

/-!
The tokens of a YAML text. Indentation opens and closes collections. A scalar may turn out to be
a key when a colon follows it, so tokens wait in a queue as long as a key token may have to be
put before them; a key ends on the line it starts on and within 1024 characters.
-/

namespace HiToolchain.Yaml

/-- A place where a key may have started: the number of the token there, and whether nothing but
a key may stand there. -/
structure PossibleKey where
  required : Bool
  number : Nat
  mark : Mark
  deriving DecidableEq, Repr

/-- A text that is being divided into tokens. -/
structure Scan where
  input : Input
  /-- The column of the innermost block collection, `-1` outside of all. -/
  indent : Int
  /-- The columns of the block collections around it. -/
  outer : List Int
  /-- Whether a key may start here. -/
  keyAllowed : Bool
  /-- The possible key of the block and of each bracket around the present place, inmost first. -/
  keys : List (Option PossibleKey)
  /-- Tokens that wait to be handed out, and how many were handed out before. -/
  queue : List Token
  taken : Nat
  ended : Bool

/-- The longest a key may be. -/
def keyLimit : Nat := 1024

namespace Scan

def start (input : Input) : Scan where
  input := input
  indent := -1
  outer := []
  keyAllowed := true
  keys := [none]
  queue := []
  taken := 0
  ended := false

/-- Whether the place is inside of brackets. -/
def inFlow (s : Scan) : Bool := 1 < s.keys.length

/-- The number of the next token. -/
def nextNumber (s : Scan) : Nat := s.taken + s.queue.length

def push (s : Scan) (kind : TokenKind) (line : Nat) : Scan :=
  { s with queue := s.queue ++ [⟨kind, line⟩] }

/-- Puts a token before the one with the given number. -/
def insert (s : Scan) (number : Nat) (kind : TokenKind) (line : Nat) : Scan :=
  { s with queue := s.queue.insertIdx (number - s.taken) ⟨kind, line⟩ }

def fault (s : Scan) (problem : Problem) : Fault := s.input.fault problem

/-- A possible key that the text has run past is none, and a fault if it was required. -/
def refresh (s : Scan) (key : PossibleKey) : Except Fault (Option PossibleKey) :=
  if key.mark.line < s.input.line || key.mark.index + keyLimit < s.input.mark.index then
    if key.required then .error (s.fault .missingColon) else .ok none
  else .ok (some key)

def refresh? (s : Scan) : Option PossibleKey → Except Fault (Option PossibleKey)
  | none => .ok none
  | some key => s.refresh key

/-- Gives up the possible key at this level. -/
def dropKey (s : Scan) : Except Fault Scan :=
  match s.keys with
  | some key :: keys =>
    if key.required then .error (s.fault .missingColon) else .ok { s with keys := none :: keys }
  | _ => .ok s

/-- Notes that a key may start here. -/
def saveKey (s : Scan) : Except Fault Scan :=
  if s.keyAllowed then do
    let key := ⟨!s.inFlow && s.indent == s.input.column, s.nextNumber, s.input.mark⟩
    let s ← s.dropKey
    return { s with keys := some key :: s.keys.drop 1 }
  else .ok s

/-- Opens a block collection at a column deeper than the present one. Its token stands before
the one with the given number, at the end if there is none. -/
def openBlock (s : Scan) (column : Nat) (number : Option Nat) (kind : TokenKind) (line : Nat) :
    Scan :=
  if !s.inFlow && s.indent < column then
    let s := { s with indent := column, outer := s.indent :: s.outer }
    match number with
    | some n => s.insert n kind line
    | none => s.push kind line
  else s

/-- Closes the block collections deeper than a column. -/
def closeBlocks (column : Int) : List Int → Scan → Scan
  | [], s => s
  | outer :: rest, s =>
    if column < s.indent then
      let closed := { s with indent := outer, outer := rest }
      closeBlocks column rest (closed.push .blockEnd s.input.line)
    else s

def unindent (s : Scan) (column : Int) : Scan :=
  if s.inFlow then s else closeBlocks column s.outer s

/-- Passes blanks, comments and line ends. A tab is a blank only where no key may start. -/
def skipToToken : Nat → Scan → Scan
  | 0, s => s
  | fuel + 1, s =>
    let i := if s.input.column == 0 && s.input.startsWith byteOrderMark then s.input.skip 1
      else s.input
    let tabs := s.inFlow || !s.keyAllowed
    let i := (i.skipWhile fun c => c == ' ' || (tabs && c == '\t')).skipComment
    if i.rest.head?.any isBreak then
      skipToToken fuel { s with input := i.readBreak.2, keyAllowed := s.keyAllowed || !s.inFlow }
    else { s with input := i }

/-- Pushes a token of `n` characters. -/
def sign (s : Scan) (kind : TokenKind) (n : Nat) : Scan :=
  { s.push kind s.input.line with input := s.input.skip n }

/-- Ends the text: everything is closed, on a line of its own. -/
def finish (s : Scan) : Except Fault Scan := do
  let m := s.input.mark
  let s := if m.column = 0 then s
    else { s with input := { s.input with mark := ⟨m.index, m.line + 1, 0⟩ } }
  let s ← (s.unindent (-1)).dropKey
  return { s.push .streamEnd s.input.line with keyAllowed := false, ended := true }

def directive (s : Scan) : Except Fault Scan := do
  let s ← (s.unindent (-1)).dropKey
  let (kind, i) ← readDirective s.input
  return { s.push kind s.input.line with keyAllowed := false, input := i }

def documentMarker (s : Scan) (kind : TokenKind) : Except Fault Scan := do
  let s ← (s.unindent (-1)).dropKey
  return { s.sign kind 3 with keyAllowed := false }

def openBracket (s : Scan) (kind : TokenKind) : Except Fault Scan := do
  let s ← s.saveKey
  return { s.sign kind 1 with keys := none :: s.keys, keyAllowed := true }

def closeBracket (s : Scan) (kind : TokenKind) : Except Fault Scan := do
  let s ← s.dropKey
  return { s.sign kind 1 with
    keys := if s.inFlow then s.keys.drop 1 else s.keys, keyAllowed := false }

def flowEntry (s : Scan) : Except Fault Scan := do
  let s ← s.dropKey
  return { s.sign .flowEntry 1 with keyAllowed := true }

def blockEntry (s : Scan) : Except Fault Scan := do
  if !s.inFlow && !s.keyAllowed then throw (s.fault .entryNotAllowed)
  let s ← (s.openBlock s.input.column none .blockSequenceStart s.input.line).dropKey
  return { s.sign .blockEntry 1 with keyAllowed := true }

def explicitKey (s : Scan) : Except Fault Scan := do
  if !s.inFlow && !s.keyAllowed then throw (s.fault .keyNotAllowed)
  let s ← (s.openBlock s.input.column none .blockMappingStart s.input.line).dropKey
  return { s.sign .key 1 with keyAllowed := !s.inFlow }

/-- A colon makes a key of what stands before it, or else ends an explicit key. -/
def valueSign (s : Scan) : Except Fault Scan := do
  match ← s.refresh? (s.keys.headD none) with
  | some key =>
    let s := s.insert key.number .key key.mark.line
    let s := s.openBlock key.mark.column (some key.number) .blockMappingStart key.mark.line
    return { s.sign .value 1 with keys := none :: s.keys.drop 1, keyAllowed := false }
  | none =>
    let s := { s with keys := none :: s.keys.drop 1 }
    if !s.inFlow && !s.keyAllowed then throw (s.fault .valueNotAllowed)
    let s := s.openBlock s.input.column none .blockMappingStart s.input.line
    return { s.sign .value 1 with keyAllowed := !s.inFlow }

/-- Reads an anchor or alias, which may start a key. -/
def anchor (s : Scan) (kind : String → TokenKind) : Except Fault Scan := do
  let s ← s.saveKey
  let (name, i) ← readAnchor s.input
  return { s.push (kind name) s.input.line with keyAllowed := false, input := i }

def tag (s : Scan) : Except Fault Scan := do
  let s ← s.saveKey
  let (kind, i) ← readTag s.input
  return { s.push kind s.input.line with keyAllowed := false, input := i }

def blockScalar (s : Scan) (literal : Bool) : Except Fault Scan := do
  let s ← s.dropKey
  let (value, i) ← Block.read literal s.indent s.input
  return { s.push (.scalar (String.ofList value) false) s.input.line with
    keyAllowed := true, input := i }

def quotedScalar (s : Scan) (single : Bool) : Except Fault Scan := do
  let s ← s.saveKey
  let (value, i) ← QuotedScalar.read single s.input
  return { s.push (.scalar (String.ofList value) false) s.input.line with
    keyAllowed := false, input := i }

def plainScalar (s : Scan) : Except Fault Scan := do
  let s ← s.saveKey
  let r ← Plain.read s.inFlow (s.indent + 1).toNat s.input
  return { s.push (.scalar (String.ofList r.value) true) s.input.line with
    keyAllowed := r.endsLine, input := r.input }

/-- Whether a plain scalar may start with `c` before `rest`. -/
def startsPlain (inFlow : Bool) (c : Char) (rest : List Char) : Bool :=
  if c == '-' then !rest.head?.any isBlank
  else if c == '?' || c == ':' then !inFlow && !isBlankOrEnd rest
  else !(isBlank c || isBreak c || ",[]\x7b\x7d#&*!|>'\"%@`".toList.contains c)

/-- Reads the next token and all that comes with it. -/
def fetch (s : Scan) : Except Fault Scan :=
  let s := skipToToken (s.input.rest.length + 1) s
  let s := s.unindent s.input.column
  let flow := s.inFlow
  match s.input.rest with
  | [] => s.finish
  | c :: rest =>
    if s.input.column == 0 && c == '%' then s.directive
    else if s.input.atMarker '-' then s.documentMarker .documentStart
    else if s.input.atMarker '.' then s.documentMarker .documentEnd
    else if c == '[' then s.openBracket .flowSequenceStart
    else if c == '\x7b' then s.openBracket .flowMappingStart
    else if c == ']' then s.closeBracket .flowSequenceEnd
    else if c == '\x7d' then s.closeBracket .flowMappingEnd
    else if c == ',' then s.flowEntry
    else if c == '-' && isBlankOrEnd rest then s.blockEntry
    else if c == '?' && (flow || isBlankOrEnd rest) then s.explicitKey
    else if c == ':' && (flow || isBlankOrEnd rest) then s.valueSign
    else if c == '*' then s.anchor .aliasOf
    else if c == '&' then s.anchor .anchor
    else if c == '!' then s.tag
    else if c == '|' && !flow then s.blockScalar true
    else if c == '>' && !flow then s.blockScalar false
    else if c == '\'' then s.quotedScalar true
    else if c == '"' then s.quotedScalar false
    else if startsPlain flow c rest then s.plainScalar
    else .error (s.fault .noToken)

/-- Whether the first token in the queue may still get a key token before it. Keys that are out of
reach are given up on the way. -/
def waits (s : Scan) : Except Fault (Bool × Scan) :=
  match s.queue with
  | [] => .ok (true, s)
  | _ => do
    let refreshed ← s.keys.mapM fun
      | some key => if key.number = s.taken then s.refresh key else .ok (some key)
      | none => .ok none
    let pending := refreshed.any fun k => k.any (·.number == s.taken)
    return (pending, { s with keys := refreshed })

/-- Tokens that can be handed out one after the other, and the fault that ends them. -/
def run : Nat → Scan → List Token × Option Fault
  | 0, _ => ([], none)
  | fuel + 1, s =>
    match s.waits with
    | .error fault => ([], some fault)
    | .ok (false, s) =>
      let (tokens, fault) := run fuel { s with queue := s.queue.drop 1, taken := s.taken + 1 }
      (s.queue.take 1 ++ tokens, fault)
    | .ok (true, s) =>
      if s.ended then ([], none)
      else match s.fetch with
        | .error fault => ([], some fault)
        | .ok s => run fuel s

end Scan

/-- The tokens of a text up to its end or to a fault. Each fetch takes a character or ends the
text and yields at most three tokens, and every collection it opens is closed once. -/
def tokens (input : Input) : List Token × Option Fault :=
  Scan.run (8 * (input.rest.length + 4)) (.start input)

end HiToolchain.Yaml
