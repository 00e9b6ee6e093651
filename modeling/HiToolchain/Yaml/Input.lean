import HiToolchain.Yaml.Chars
import HiToolchain.Yaml.Fault

/-!
YAML text under a mark that counts characters, lines and columns from zero.
-/

namespace HiToolchain.Yaml

structure Mark where
  index : Nat
  line : Nat
  column : Nat
  deriving DecidableEq, Repr, Inhabited

namespace Mark

def start : Mark := ⟨0, 0, 0⟩

/-- The mark after `n` characters of the same line. -/
def forward (m : Mark) (n : Nat) : Mark :=
  ⟨m.index + n, m.line, m.column + n⟩

/-- The mark after a line break of `n` characters. -/
def nextLine (m : Mark) (n : Nat) : Mark :=
  ⟨m.index + n, m.line + 1, 0⟩

end Mark

/-- What is left of a text and where it starts. -/
structure Input where
  mark : Mark
  rest : List Char
  deriving DecidableEq, Repr, Inhabited

/-- Line breaks are read as line feeds, but for the two separators of Unicode. -/
def breakText (c : Char) : Char :=
  if c == '\r' || c.toNat == 0x85 then '\n' else c

/-- A blank, a line break or the end of the text. -/
def isBlankOrEnd : List Char → Bool
  | [] => true
  | c :: _ => isBlank c || isBreak c

/-- Letters, digits, dash and underscore. -/
def isNameChar (c : Char) : Bool :=
  isDigit c || ('A' ≤ c && c ≤ 'Z') || ('a' ≤ c && c ≤ 'z') || c == '_' || c == '-'

namespace Input

def line (i : Input) : Nat := i.mark.line

def column (i : Input) : Nat := i.mark.column

/-- Passes `n` characters of the line. -/
def skip (n : Nat) (i : Input) : Input :=
  ⟨i.mark.forward n, i.rest.drop n⟩

def startsWith (c : Char) (i : Input) : Bool :=
  i.rest.head? == some c

/-- The longest run of characters of the line that satisfy `keep`. -/
def readWhile (keep : Char → Bool) (i : Input) : List Char × Input :=
  let chars := i.rest.takeWhile keep
  (chars, ⟨i.mark.forward chars.length, i.rest.dropWhile keep⟩)

def skipWhile (keep : Char → Bool) (i : Input) : Input :=
  (i.readWhile keep).2

/-- Reads a line break; nothing where there is none. -/
def readBreak (i : Input) : List Char × Input :=
  match i.rest with
  | '\r' :: '\n' :: rest => (['\n'], ⟨i.mark.nextLine 2, rest⟩)
  | c :: rest => if isBreak c then ([breakText c], ⟨i.mark.nextLine 1, rest⟩) else ([], i)
  | [] => ([], i)

/-- Passes a comment up to the end of its line. -/
def skipComment (i : Input) : Input :=
  if i.startsWith '#' then i.skipWhile (!isBreak ·) else i

/-- Whether the text goes on with three characters `c` that mark a document. -/
def atMarker (c : Char) (i : Input) : Bool :=
  match i.rest with
  | a :: b :: d :: rest => i.column == 0 && a == c && b == c && d == c && isBlankOrEnd rest
  | _ => false

def atDocumentIndicator (i : Input) : Bool :=
  i.atMarker '-' || i.atMarker '.'

/-- A fault of the text here. -/
def fault (i : Input) (problem : Problem) : Fault :=
  .inText problem i.line

end Input

/-- Characters that a text may hold at all. -/
def isAllowed (c : Char) : Bool :=
  let n := c.toNat
  n == 0x09 || n == 0x0a || n == 0x0d || (0x20 ≤ n && n ≤ 0x7e) || n == 0x85
    || (0xa0 ≤ n && n ≤ 0xd7ff) || (0xe000 ≤ n && n ≤ 0xfffd) || 0x10000 ≤ n

/-- The byte order mark. -/
def byteOrderMark : Char := '\uFEFF'

/-- The start of a text, after a byte order mark if there is one. -/
def Input.ofText (text : String) : Except Fault Input :=
  if text.toList.all isAllowed then
    match text.toList with
    | c :: rest => .ok ⟨.start, if c == byteOrderMark then rest else c :: rest⟩
    | [] => .ok ⟨.start, []⟩
  else .error (.general .controlCharacter)

end HiToolchain.Yaml
