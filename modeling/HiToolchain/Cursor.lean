import HiToolchain.Fault

/-!
A cursor walks over a text whose line endings are made uniform: CRLF, a lone CR and a lone LF
are each one line feed. Reading past the end yields the end mark, which is also a character that
a text may hold. A cursor keeps a stack of marked places to return to.
-/

namespace HiToolchain

/-- What reading yields where the text has run out. -/
def endMark : Char := Char.ofNat 3

/-- One logical character and the number of raw characters it stands for. -/
structure Glyph where
  char : Char
  width : Nat
  deriving DecidableEq, Repr, Inhabited

namespace Glyph

/-- The logical characters of a text. -/
def ofChars : List Char → List Glyph
  | [] => []
  | '\r' :: '\n' :: rest => ⟨'\n', 2⟩ :: ofChars rest
  | '\r' :: rest => ⟨'\n', 1⟩ :: ofChars rest
  | c :: rest => ⟨c, 1⟩ :: ofChars rest

end Glyph

namespace Position

/-- A line feed moves to the start of the next line, every other character one column on. -/
def advance (p : Position) (g : Glyph) : Position :=
  if g.char = '\n' then ⟨p.offset + g.width, p.line + 1, 0⟩
  else ⟨p.offset + g.width, p.line, p.column + 1⟩

end Position

/-- A point in the text: where it is, the character before it and the characters after it. -/
structure Place where
  pos : Position
  last : Option Char
  rest : List Glyph
  deriving DecidableEq, Repr, Inhabited

namespace Place

/-- The beginning of a text. -/
def ofText (text : String) : Place :=
  ⟨.start, none, Glyph.ofChars text.toList⟩

/-- The place after the next character `g`, with `rest` to come. -/
def step (p : Place) (g : Glyph) (rest : List Glyph) : Place :=
  ⟨p.pos.advance g, some g.char, rest⟩

/-- At most `n` characters from here on, ended by the end mark if there are fewer. -/
def read : Nat → Place → List Char × Place
  | 0, p => ([], p)
  | n + 1, p =>
    match p.rest with
    | [] => ([endMark], p)
    | g :: rest =>
      let (chars, q) := read n (p.step g rest)
      (g.char :: chars, q)

/-- The longest run of characters that satisfy `keep`, started at `p` with `glyphs` to come. -/
def readWhileFrom (keep : Char → Bool) (p : Place) : List Glyph → List Char × Place
  | [] => ([], { p with rest := [] })
  | g :: rest =>
    if keep g.char then
      let (chars, q) := readWhileFrom keep (p.step g rest) rest
      (g.char :: chars, q)
    else ([], { p with rest := g :: rest })

/-- The longest run of characters from here on that satisfy `keep`. -/
def readWhile (keep : Char → Bool) (p : Place) : List Char × Place :=
  readWhileFrom keep p p.rest

/-- The character to come, the end mark if there is none. -/
def next (p : Place) : Char :=
  match p.rest with
  | [] => endMark
  | g :: _ => g.char

end Place

/-- A place in a named text, the last character a read returned, and the marks set so far with
the latest first. -/
structure Cursor where
  file : String
  place : Place
  current : Option Char
  marks : List Place
  deriving DecidableEq, Repr, Inhabited

namespace Cursor

/-- A text without a name comes from standard input. -/
def ofText (text : String) (file : String) : Cursor where
  file := if file.isEmpty then "stdin" else file
  place := .ofText text
  current := none
  marks := []

def pos (c : Cursor) : Position := c.place.pos

def depth (c : Cursor) : Nat := c.marks.length

/-- Reads at most `n` characters; a count of zero or less reads nothing. -/
def read (n : Int) (c : Cursor) : String × Cursor :=
  let (chars, q) := c.place.read n.toNat
  (String.ofList chars, { c with place := q, current := chars.getLast? })

/-- What `read` would return. -/
def peek (n : Int) (c : Cursor) : String :=
  (c.read n).1

/-- Reads on as long as the characters satisfy `keep`. -/
def readWhile (keep : Char → Bool) (c : Cursor) : String × Cursor :=
  let (chars, q) := c.place.readWhile keep
  (String.ofList chars, { c with place := q, current := chars.getLast?.or c.current })

/-- Marks the present place. -/
def push (c : Cursor) : Cursor :=
  { c with marks := c.place :: c.marks }

/-- Returns to the latest mark and removes it. -/
def restore (c : Cursor) : Except Underflow Cursor :=
  match c.marks with
  | [] => .error ⟨c.file⟩
  | m :: marks => .ok { c with place := m, current := m.last, marks := marks }

/-- Removes the latest mark and stays. -/
def drop (c : Cursor) : Except Underflow Cursor :=
  match c.marks with
  | [] => .error ⟨c.file⟩
  | _ :: marks => .ok { c with marks := marks }

end Cursor

end HiToolchain
