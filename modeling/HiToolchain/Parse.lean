import HiToolchain.Scan

/-!
Reading programs. A statement is a greeting, a `print` with an expression, or an expression; an
expression is numbers joined by operators, where `**` binds tightest and to the right, then `*`
and `/`, then `+` and `-`, both to the left. One token of look-ahead decides at every point, and
each look reads the token again.
-/

namespace HiToolchain

/-- What reading a program notes on its way. -/
inductive LogEntry where
  | token (token : Token)
  | statement (kind : NodeKind) (span : Span)
  deriving DecidableEq, Repr

namespace LogEntry

/-- The line that an entry becomes in the log of a file. -/
def line (file : String) : LogEntry → String
  | token t => "D | lexer: " ++ file ++ ": " ++ t.describe
  | statement kind span =>
    "D | parser: " ++ file ++ ": parsed " ++ kind.name ++ " at " ++ span.describe

end LogEntry

structure ParseState where
  cursor : Cursor
  log : Array LogEntry

/-- A parser moves a cursor and notes what it reads; a failure keeps both. -/
abbrev Parser := EStateM ReadFault ParseState

namespace Parser

/-- Reads a token by `read`. Every token is noted but the end of the text. -/
def scan (read : Cursor → Cursor.Scanned Token) : Parser Token := fun s =>
  match read s.cursor with
  | (.error fault, c) => .error (.lexical fault) { s with cursor := c }
  | (.ok t, c) => .ok t ⟨c, if t.kind = .eof then s.log else s.log.push (.token t)⟩

def next : Parser Token := scan Cursor.nextToken

def peek : Parser Token := scan Cursor.peekToken

def position : Parser Position := do
  return (← get).cursor.pos

def unexpected {α : Type} (t : Token) (expected : List TokenKind) : Parser α := do
  throw (.grammatical ⟨(← get).cursor.file, t.kind, expected, t.span⟩)

def expect (kind : TokenKind) : Parser Token := do
  let t ← next
  if t.kind = kind then return t else unexpected t [kind]

/-- An operation covers its operands and all that stands between them. -/
def operation (op : TokenKind) (left right : Expr) : Expr :=
  .binary ⟨left.span.start, right.span.stop⟩ op left right

def number : Parser Expr := do
  let t ← expect .number
  return .number t.span t.value

/-- A number, or a number raised to a power. -/
def power : Nat → Parser Expr
  | 0 => number
  | fuel + 1 => do
    let left ← number
    if (← peek).kind = .power then
      let op ← next
      let right ← power fuel
      return operation op.kind left right
    else return left

/-- Operations that follow `left` and are grouped to the left. -/
def chain (isOp : TokenKind → Bool) (operand : Parser Expr) : Nat → Expr → Parser Expr
  | 0, left => return left
  | fuel + 1, left => do
    if isOp (← peek).kind then
      let op ← next
      let right ← operand
      chain isOp operand fuel (operation op.kind left right)
    else return left

def product (fuel : Nat) : Parser Expr := do
  let left ← power fuel
  chain (fun k => k = .times || k = .divide) (power fuel) fuel left

def sum (fuel : Nat) : Parser Expr := do
  let left ← product fuel
  chain (fun k => k = .plus || k = .minus) (product fuel) fuel left

def greeting : Parser Stmt := do
  let hi ← expect .hi
  let name ← expect .string
  return .greet ⟨hi.span.start, name.span.stop⟩ name.value

def printing (fuel : Nat) : Parser Stmt := do
  let word ← expect .print
  let value ← sum fuel
  return .print ⟨word.span.start, ← position⟩ value

def evaluation (fuel : Nat) : Parser Stmt := do
  let value ← sum fuel
  return .evaluate value.span value

/-- The statement that starts with the token `t` to come. -/
def statement (fuel : Nat) (t : Token) : Parser Stmt :=
  match t.kind with
  | .hi => greeting
  | .number => evaluation fuel
  | .print => printing fuel
  | _ => unexpected t [.hi, .number, .print]

/-- Statements to the end of the text. -/
def statements (exprFuel : Nat) : Nat → Parser (List Stmt)
  | 0 => return []
  | fuel + 1 => do
    let t ← peek
    if t.kind = .eof then return []
    else
      let s ← statement exprFuel t
      modify fun st => { st with log := st.log.push (.statement s.kind s.span) }
      let rest ← statements exprFuel fuel
      return s :: rest

/-- A whole program. Every statement and every operation takes at least one character, so the
number of characters left bounds them. -/
def program : Parser Program := do
  let start ← position
  let fuel := (← get).cursor.place.rest.length + 1
  let body ← statements fuel fuel
  return ⟨⟨start, ← position⟩, body⟩

end Parser

namespace Cursor

/-- Reads a program from the cursor on, with the cursor and the log it leaves. -/
def parse (c : Cursor) : Except ReadFault Program × ParseState :=
  match Parser.program ⟨c, #[]⟩ with
  | .ok p s => (.ok p, s)
  | .error fault s => (.error fault, s)

end Cursor

namespace Program

/-- Reads a text as a program; `file` names it in diagnostics. -/
def parse (text : String) (file : String) : Except ReadFault Program :=
  (Cursor.ofText text file).parse.1

end Program

end HiToolchain
