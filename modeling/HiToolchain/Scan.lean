import HiToolchain.Cursor
import HiToolchain.Text.Digits

/-!
Reading tokens: the lexeme that starts at a cursor is the longest one, blanks before it are
skipped, and the end mark ends the token list without being read.
-/

namespace HiToolchain

/-- Blanks separate tokens and mean nothing else. -/
def isBlank (c : Char) : Bool :=
  c == ' ' || c == '\t' || c == '\n'

/-- The operator that a character starts. -/
def operator? (c : Char) : Option TokenKind :=
  match c with
  | '*' => some .times
  | '/' => some .divide
  | '+' => some .plus
  | '-' => some .minus
  | _ => none

namespace Cursor

/-- A token, or the reason why there is none, and the cursor after everything read for it. -/
abbrev Scanned (α : Type) := Except LexFault α × Cursor

/-- The fault at the present position. -/
def lexFault (c : Cursor) (cause : LexCause) : LexFault :=
  ⟨c.file, c.pos.line, c.pos.column, cause⟩

def skipBlanks (c : Cursor) : Cursor :=
  (c.readWhile isBlank).2

/-- Reads as many characters as `word` has and compares. -/
def scanKeyword (kind : TokenKind) (word : String) (c : Cursor) : Scanned Token :=
  let (got, d) := c.read word.length
  if got = word then (.ok ⟨kind, word, ⟨c.pos, d.pos⟩⟩, d)
  else (.error (d.lexFault (.misspelt word)), d)

/-- A string runs to the next double quote and keeps its text as it stands. -/
def scanString (c : Cursor) : Scanned Token :=
  let (_, opened) := c.read 1
  let (value, d) := opened.readWhile fun ch => ch != '"' && ch != endMark
  let (closing, e) := d.read 1
  if closing = "\"" then (.ok ⟨.string, value, ⟨c.pos, e.pos⟩⟩, e)
  else (.error (e.lexFault .unterminatedString), e)

def scanNumber (c : Cursor) : Scanned Token :=
  let (digits, d) := c.readWhile isDigit
  (.ok ⟨.number, digits, ⟨c.pos, d.pos⟩⟩, d)

/-- Two stars are one operator. -/
def scanOperator (op : TokenKind) (c : Cursor) : Scanned Token :=
  let (_, d) := c.read 1
  if op = .times && d.place.next == '*' then
    let (_, e) := d.read 1
    (.ok ⟨.power, "", ⟨c.pos, e.pos⟩⟩, e)
  else (.ok ⟨op, "", ⟨c.pos, d.pos⟩⟩, d)

/-- The token that starts at a cursor without blanks before it. -/
def scanToken (c : Cursor) : Scanned Token :=
  let ch := c.place.next
  if ch == '"' then c.scanString
  else if ch == 'h' then c.scanKeyword .hi "hi"
  else if ch == 'p' then c.scanKeyword .print "print"
  else if isDigit ch then c.scanNumber
  else if ch == endMark then (.ok ⟨.eof, "", .point c.pos⟩, c)
  else match operator? ch with
    | some op => c.scanOperator op
    | none => (.error (c.lexFault .strayCharacter), c)

/-- Reads one token. -/
def nextToken (c : Cursor) : Scanned Token :=
  c.skipBlanks.scanToken

/-- Reads one token and returns to where it started, also when there is none. -/
def peekToken (c : Cursor) : Scanned Token :=
  let (result, d) := c.push.nextToken
  match d.restore with
  | .ok e => (result, e)
  | .error _ => (result, d)

/-- Reads tokens to the end, which is the last one, or to the first fault. -/
def tokensWithin : Nat → Cursor → (List Token × Option LexFault) × Cursor
  | 0, c => (([], none), c)
  | fuel + 1, c =>
    match c.nextToken with
    | (.error fault, d) => (([], some fault), d)
    | (.ok token, d) =>
      if token.kind = .eof then (([token], none), d)
      else
        let ((tokens, fault), e) := tokensWithin fuel d
        ((token :: tokens, fault), e)

/-- Every token takes at least one character, so the number of characters left bounds them. -/
def tokens (c : Cursor) : (List Token × Option LexFault) × Cursor :=
  tokensWithin (c.place.rest.length + 1) c

/-- The tokens to come that are noted when they are read: all but the end of the text. -/
def ahead (c : Cursor) : List Token :=
  c.tokens.1.1.filter (·.kind ≠ .eof)

end Cursor

end HiToolchain
