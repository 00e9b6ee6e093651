import HiToolchain.Position
import HiToolchain.Text.Quoted

/-!
Tokens: the kinds of lexeme, the token a lexeme becomes, and their names in diagnostics.
-/

namespace HiToolchain

/-- The kind of a token. `other` stands for the codes that no lexeme has. -/
inductive TokenKind where
  | eof
  | hi
  | print
  | string
  | number
  | plus
  | minus
  | times
  | divide
  | power
  | other (code : Int)
  deriving DecidableEq, Repr, Inhabited

namespace TokenKind

/-- Kinds are numbered from zero in the order of their declaration. -/
def ofCode (code : Int) : TokenKind :=
  match code with
  | 0 => eof
  | 1 => hi
  | 2 => print
  | 3 => string
  | 4 => number
  | 5 => plus
  | 6 => minus
  | 7 => times
  | 8 => divide
  | 9 => power
  | n => other n

def name : TokenKind → String
  | eof => "eof"
  | hi => "hi"
  | print => "print"
  | string => "string"
  | number => "number"
  | plus => "+"
  | minus => "-"
  | times => "*"
  | divide => "/"
  | power => "**"
  | other code => "TokenKind(" ++ toString code ++ ")"

/-- The five arithmetic operators. -/
def isOperator : TokenKind → Bool
  | plus | minus | times | divide | power => true
  | _ => false

/-- Keywords are described by their kind alone, since their value repeats it. -/
def isKeyword : TokenKind → Bool
  | hi | print => true
  | _ => false

end TokenKind

/-- A lexeme with its kind, the value it carries and the text it covers. -/
structure Token where
  kind : TokenKind
  value : String
  span : Span
  deriving DecidableEq, Repr, Inhabited

namespace Token

/-- Kind, quoted value where there is one to show, and start of the token. -/
def describe (t : Token) : String :=
  let label :=
    if t.value.isEmpty || t.kind.isKeyword then t.kind.name
    else t.kind.name ++ "(" ++ quoted t.value ++ ")"
  label ++ "@" ++ t.span.start.describe

end Token

end HiToolchain
