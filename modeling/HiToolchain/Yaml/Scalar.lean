import HiToolchain.Text.Quoted
import HiToolchain.Yaml.Resolve

/-!
Strings as YAML scalars. A string is written plain if it reads back as a string that way, else in
quotes, and literally if it holds a line feed; where the wanted style cannot hold the string, a
stronger one is taken. Long lines are folded at single spaces.
-/

namespace HiToolchain.Yaml

/-- Ways to write a string, the stronger ones last. -/
inductive ScalarStyle where
  | plain
  | single
  | literal
  | double
  deriving DecidableEq, Repr

/-- Whether some two neighbours satisfy `p`. -/
def anyAdjacent (p : Char → Char → Bool) : List Char → Bool
  | a :: b :: rest => p a b || anyAdjacent p (b :: rest)
  | _ => false

/-- A space before a line break would be lost. -/
def hasSpaceBreak (cs : List Char) : Bool :=
  anyAdjacent (fun a b => a == ' ' && isBreak b) cs

def hasBreakSpace (cs : List Char) : Bool :=
  anyAdjacent (fun a b => isBreak a && b == ' ') cs

/-- Characters that cannot start a plain scalar. -/
def isIndicator (c : Char) : Bool :=
  "#,[]\x7b\x7d&*!|>'\"%@`".toList.contains c

/-- Whether `c` stands before a blank or at the end. -/
def endsWord (c : Char) : List Char → Bool
  | [] => false
  | [d] => c == d
  | d :: e :: rest => (c == d && isBlank e) || endsWord c (e :: rest)

/-- Whether a plain scalar would start or hold something else at this text. -/
def hasIndicator (cs : List Char) : Bool :=
  let starts := match cs with
    | [] => false
    | [c] => isIndicator c || c == '-' || c == '?' || c == ':'
    | c :: d :: _ => isIndicator c || ((c == '-' || c == '?' || c == ':') && isBlank d)
  starts || "---".toList.isPrefixOf cs || "...".toList.isPrefixOf cs || endsWord ':' cs
    || anyAdjacent (fun a b => isBlank a && b == '#') cs

def allowsPlain (cs : List Char) : Bool :=
  !(cs.any isBreak || cs.any isSpecial || hasIndicator cs || cs.head? == some ' '
    || cs.getLast? == some ' ')

def allowsSingle (cs : List Char) : Bool :=
  !(hasBreakSpace cs || hasSpaceBreak cs || cs.any isSpecial)

def allowsLiteral (cs : List Char) : Bool :=
  !(cs.isEmpty || cs.getLast? == some ' ' || hasSpaceBreak cs || cs.any isSpecial)

/-- The style of a string. -/
def chooseStyle (s : String) : ScalarStyle :=
  let cs := s.toList
  if cs.contains '\n' then if allowsLiteral cs then .literal else .double
  else if needsQuotes s then .double
  else if allowsPlain cs then .plain
  else if allowsSingle cs then .single
  else .double

/-- The column after which a line is folded at the next single space. -/
def foldColumn : Nat := 80

def newLine (indent : Nat) : List Char :=
  '\n' :: List.replicate indent ' '

/-- The text of a plain or single-quoted scalar from `column` on. A break other than a line feed
is kept as it is, and the text after it indented. -/
def foldFlow (indent : Nat) (write : Char → List Char) :
    (column : Nat) → (first afterSpace afterBreak : Bool) → List Char → List Char
  | _, _, _, _, [] => []
  | column, first, afterSpace, afterBreak, c :: rest =>
    if c == ' ' then
      let folds := !afterSpace && foldColumn < column && !first && !rest.isEmpty
        && rest.head? != some ' '
      if folds then newLine indent ++ foldFlow indent write indent false true afterBreak rest
      else ' ' :: foldFlow indent write (column + 1) false true afterBreak rest
    else if isBreak c then c :: foldFlow indent write 0 false afterSpace true rest
    else
      let text := (if afterBreak then List.replicate (indent - column) ' ' else []) ++ write c
      text ++ foldFlow indent write (column + text.length) false false false rest

def plainText (indent column : Nat) (cs : List Char) : List Char :=
  foldFlow indent (fun c => [c]) column true false false cs

/-- In single quotes a single quote is written twice. -/
def singleText (indent column : Nat) (cs : List Char) : List Char :=
  '\'' :: foldFlow indent (fun c => if c == '\'' then [c, c] else [c]) (column + 1) true false false
    cs ++ ['\'']

/-- The letter of a short escape. -/
def escapeLetter? (c : Char) : Option Char :=
  match c.toNat with
  | 0x00 => some '0'
  | 0x07 => some 'a'
  | 0x08 => some 'b'
  | 0x09 => some 't'
  | 0x0a => some 'n'
  | 0x0b => some 'v'
  | 0x0c => some 'f'
  | 0x0d => some 'r'
  | 0x1b => some 'e'
  | 0x22 => some '"'
  | 0x5c => some '\\'
  | 0x85 => some 'N'
  | 0x2028 => some 'L'
  | 0x2029 => some 'P'
  | _ => none

def upperHex (width n : Nat) : List Char :=
  (hexPadded width n).toList.map Char.toUpper

/-- Escapes by code point have two, four or eight digits. -/
def escape (c : Char) : List Char :=
  match escapeLetter? c with
  | some letter => ['\\', letter]
  | none =>
    let n := c.toNat
    if n ≤ 0xff then '\\' :: 'x' :: upperHex 2 n
    else if n ≤ 0xffff then '\\' :: 'u' :: upperHex 4 n
    else '\\' :: 'U' :: upperHex 8 n

def needsEscape (c : Char) : Bool :=
  isSpecial c || isBreak c || c == '"' || c == '\\'

/-- The text between double quotes from `column` on. A backslash keeps a space at the start of a
line. -/
def foldDouble (indent : Nat) :
    (column : Nat) → (first afterSpace : Bool) → List Char → List Char
  | _, _, _, [] => []
  | column, first, afterSpace, c :: rest =>
    if needsEscape c then
      escape c ++ foldDouble indent (column + (escape c).length) false false rest
    else if c == ' ' then
      if !afterSpace && foldColumn < column && !first && !rest.isEmpty then
        let keep := if rest.head? == some ' ' then ['\\'] else []
        newLine indent ++ keep ++ foldDouble indent (indent + keep.length) false true rest
      else ' ' :: foldDouble indent (column + 1) false true rest
    else c :: foldDouble indent (column + 1) false false rest

def doubleText (indent column : Nat) (cs : List Char) : List Char :=
  '"' :: foldDouble indent (column + 1) true false cs ++ ['"']

/-- The mark of a literal scalar: a digit for the indentation where the text does not show it,
then how the breaks at its end are taken. -/
def literalHeader (cs : List Char) : List Char :=
  let hint := match cs with
    | c :: _ => if c == ' ' || isBreak c then ['2'] else []
    | [] => []
  let chomp := match cs.reverse with
    | [] => ['-']
    | [c] => if isBreak c then ['+'] else ['-']
    | c :: d :: _ => if !isBreak c then ['-'] else if isBreak d then ['+'] else []
  '|' :: hint ++ chomp

/-- The lines of a literal scalar; empty lines are not indented. -/
def literalLines (indent : Nat) : (lineStart : Bool) → List Char → List Char
  | _, [] => []
  | lineStart, c :: rest =>
    if isBreak c then c :: literalLines indent true rest
    else
      (if lineStart then List.replicate indent ' ' else []) ++ c :: literalLines indent false rest

def literalText (indent : Nat) (cs : List Char) : List Char :=
  literalHeader cs ++ '\n' :: literalLines indent true cs

/-- A string as a scalar that starts at `column` and continues at `indent`, with the end of its
line. A literal scalar that ends in a break has ended its line already. -/
def scalarLine (indent column : Nat) (s : String) : String :=
  let cs := s.toList
  String.ofList <| match chooseStyle s with
    | .plain => plainText indent column cs ++ ['\n']
    | .single => singleText indent column cs ++ ['\n']
    | .double => doubleText indent column cs ++ ['\n']
    | .literal => literalText indent cs ++ if (cs.getLast?).any isBreak then [] else ['\n']

end HiToolchain.Yaml
