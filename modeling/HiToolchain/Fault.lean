import HiToolchain.Tree

/-!
Faults: what can go wrong while a text is read or a program is walked, and the wording of each
diagnostic.
-/

namespace HiToolchain

/-- Why no token could be read. -/
inductive LexCause where
  | strayCharacter
  | misspelt (keyword : String)
  | unterminatedString
  | note (text : String)
  deriving DecidableEq, Repr

namespace LexCause

/-- Empty when the character itself is the whole reason. -/
def reason : LexCause → String
  | strayCharacter => ""
  | misspelt keyword => "expected keyword " ++ keyword
  | unterminatedString => "unterminated string"
  | note text => text

end LexCause

/-- A text that cannot be divided into tokens. -/
structure LexFault where
  file : String
  line : Int
  column : Int
  cause : LexCause
  deriving DecidableEq, Repr

namespace LexFault

def message (f : LexFault) : String :=
  let place := f.file ++ ": Unexpected char at line: " ++ toString f.line
    ++ " column: " ++ toString f.column
  if f.cause.reason.isEmpty then place else place ++ " (" ++ f.cause.reason ++ ")"

end LexFault

/-- A token that cannot continue a program. -/
structure ParseFault where
  file : String
  got : TokenKind
  expected : List TokenKind
  span : Span
  deriving DecidableEq, Repr

namespace ParseFault

def message (f : ParseFault) : String :=
  let place := f.file ++ ": Unexpected token at line: " ++ toString f.span.start.line
    ++ " column: " ++ toString f.span.start.column ++ ", got " ++ f.got.name
  if f.expected.isEmpty then place
  else place ++ ", expected one of " ++ ", ".intercalate (f.expected.map TokenKind.name)

end ParseFault

/-- Why a text is not a program. -/
inductive ReadFault where
  | lexical (fault : LexFault)
  | grammatical (fault : ParseFault)
  deriving DecidableEq, Repr

namespace ReadFault

def message : ReadFault → String
  | lexical f => f.message
  | grammatical f => f.message

end ReadFault

/-- Why an expression has no value. -/
inductive EvalCause where
  | unknownOperator (op : TokenKind)
  | malformedNumber (digits : String)
  | note (text : String)
  deriving DecidableEq, Repr

namespace EvalCause

def reason : EvalCause → String
  | unknownOperator op => "unknown operator " ++ op.name
  | malformedNumber digits => "invalid number literal " ++ quoted digits
  | note text => text

end EvalCause

structure EvalFault where
  cause : EvalCause
  span : Span
  deriving DecidableEq, Repr

namespace EvalFault

def message (f : EvalFault) : String :=
  f.span.start.describe ++ ": " ++ f.cause.reason

end EvalFault

/-- Why a walk over a tree ended early. -/
inductive WalkFault where
  | evaluation (fault : EvalFault)
  | unhandledStmt (node : ForeignStmt)
  | unhandledExpr (node : ForeignExpr)
  deriving DecidableEq, Repr

namespace WalkFault

def message : WalkFault → String
  | evaluation f => f.message
  | unhandledStmt node => "unhandled statement kind " ++ node.name
  | unhandledExpr node => "unhandled expression kind " ++ node.name

end WalkFault

/-- A mark was taken back that had not been set. -/
structure Underflow where
  file : String
  deriving DecidableEq, Repr

namespace Underflow

def message (f : Underflow) : String :=
  f.file ++ ": unbalanced popping of position stack"

end Underflow

end HiToolchain
