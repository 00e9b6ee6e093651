import HiToolchain.Token

/-!
Syntax trees. Every node carries the span of the text it was read from; a tree built by hand may
carry any span, any operator kind and any digits, and foreign nodes.
-/

namespace HiToolchain

inductive NodeKind where
  | program
  | greeting
  | printing
  | evaluation
  | binary
  | number
  | other (code : Int)
  deriving DecidableEq, Repr, Inhabited

namespace NodeKind

/-- Kinds are numbered from zero in the order of their declaration. -/
def ofCode (code : Int) : NodeKind :=
  match code with
  | 0 => program
  | 1 => greeting
  | 2 => printing
  | 3 => evaluation
  | 4 => binary
  | 5 => number
  | n => other n

def name : NodeKind → String
  | program => "prog"
  | greeting => "sayhi"
  | printing => "print_stmt"
  | evaluation => "expr_stmt"
  | binary => "binary_expr"
  | number => "number"
  | other _ => "unknown"

end NodeKind

/-- The code of a node that no walk over a tree handles: its kind is none of those that walks
handle in its place. -/
structure Foreign (handled : List NodeKind) where
  code : Int
  unhandled : NodeKind.ofCode code ∉ handled
  deriving DecidableEq, Repr

namespace Foreign

variable {handled : List NodeKind}

def kind (f : Foreign handled) : NodeKind :=
  .ofCode f.code

def name (f : Foreign handled) : String :=
  f.kind.name

/-- The foreign node of a code, or the default one if the code is that of a handled kind. -/
def ofCode [Inhabited (Foreign handled)] (code : Int) : Foreign handled :=
  if h : NodeKind.ofCode code ∉ handled then ⟨code, h⟩ else default

end Foreign

/-- Where an expression stands, walks handle operations and numbers. -/
abbrev ForeignExpr := Foreign [.binary, .number]

/-- Where a statement stands, walks handle greetings, prints and evaluations. -/
abbrev ForeignStmt := Foreign [.greeting, .printing, .evaluation]

instance : Inhabited ForeignExpr where
  default := ⟨0, by decide⟩

instance : Inhabited ForeignStmt where
  default := ⟨0, by decide⟩

/-- Arithmetic. A number keeps its digits as they were written. -/
inductive Expr where
  | number (span : Span) (digits : String)
  | binary (span : Span) (op : TokenKind) (left right : Expr)
  | foreign (span : Span) (node : ForeignExpr)
  deriving DecidableEq, Repr, Inhabited

namespace Expr

def span : Expr → Span
  | number s _ => s
  | binary s _ _ _ => s
  | foreign s _ => s

def kind : Expr → NodeKind
  | number .. => .number
  | binary .. => .binary
  | foreign _ node => node.kind

/-- Canonical text: every operation in parentheses, a foreign node empty. -/
def text : Expr → String
  | number _ digits => digits
  | binary _ op left right => "(" ++ left.text ++ " " ++ op.name ++ " " ++ right.text ++ ")"
  | foreign .. => ""

end Expr

/-- A statement greets, prints the value of an expression, or evaluates one for nothing. -/
inductive Stmt where
  | greet (span : Span) (name : String)
  | print (span : Span) (value : Expr)
  | evaluate (span : Span) (value : Expr)
  | foreign (span : Span) (node : ForeignStmt)
  deriving DecidableEq, Repr, Inhabited

namespace Stmt

def span : Stmt → Span
  | greet s _ => s
  | print s _ => s
  | evaluate s _ => s
  | foreign s _ => s

def kind : Stmt → NodeKind
  | greet .. => .greeting
  | print .. => .printing
  | evaluate .. => .evaluation
  | foreign _ node => node.kind

/-- Canonical text; a foreign statement reads as a greeting without a name. -/
def text : Stmt → String
  | greet _ name => "hi \"" ++ name ++ "\""
  | print _ value => "print " ++ value.text
  | evaluate _ value => value.text
  | foreign .. => "hi \"\""

end Stmt

structure Program where
  span : Span
  body : List Stmt
  deriving DecidableEq, Repr, Inhabited

namespace Program

/-- Canonical text, one statement after the other, separated by line feeds. -/
def text (p : Program) : String :=
  "\n".intercalate (p.body.map Stmt.text)

end Program

end HiToolchain
