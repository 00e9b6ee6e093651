import HiToolchain.Tree

/-!
Dumps of tokens and trees: records with named fields over several lines, where a field that is
zero or empty is left out.
-/

namespace HiToolchain

/-- A value to be dumped. -/
inductive Dump where
  | plain (text : String)
  | record (head : String) (fields : List (String × Dump))
  | list (head : String) (items : List Dump)
  deriving Repr, Inhabited

namespace Dump

def spaces (n : Nat) : String :=
  String.ofList (List.replicate n ' ')

mutual

/-- A value that starts on a line indented by `indent`. -/
def text (indent : Nat) : Dump → String
  | plain s => s
  | record head fields =>
    head ++ "\x7b\n" ++ fieldsText (indent + 2) fields ++ spaces indent ++ "\x7d"
  | list head items => head ++ "\x7b\n" ++ itemsText (indent + 2) items ++ spaces indent ++ "\x7d"

def fieldsText (indent : Nat) : List (String × Dump) → String
  | [] => ""
  | (name, value) :: rest =>
    spaces indent ++ name ++ ": " ++ text indent value ++ ",\n" ++ fieldsText indent rest

def itemsText (indent : Nat) : List Dump → String
  | [] => ""
  | item :: rest => spaces indent ++ text indent item ++ ",\n" ++ itemsText indent rest

end

/-- A number field; zero is left out. -/
def number (name : String) (n : Int) : List (String × Dump) :=
  if n = 0 then [] else [(name, plain (toString n))]

/-- A text field; the empty text is left out. -/
def string (name : String) (s : String) : List (String × Dump) :=
  if s.isEmpty then [] else [(name, plain (quoted s))]

/-- A field for a kind of token; the end of the text is the kind zero. -/
def tokenKind (name : String) (k : TokenKind) : List (String × Dump) :=
  if k = .eof then [] else [(name, plain ("types.TokenKind(" ++ k.name ++ ")"))]

def position (p : Position) : Dump :=
  record "types.Position"
    (number "Offset" p.offset ++ number "Line" p.line ++ number "Column" p.column)

def span (s : Span) : Dump :=
  record "types.SourceLoc" [("Start", position s.start), ("End", position s.stop)]

/-- Tokens in a list are dumped without the name of their type. -/
def token (t : Token) : Dump :=
  record "" (tokenKind "Kind" t.kind ++ string "Value" t.value ++ [("Location", span t.span)])

def tokens (list : List Token) : Dump :=
  .list "[]types.Token" (list.map token)

/-- A node: the name of its type, its span and its parts. -/
def node (head : String) (s : Span) (parts : List (String × Dump)) : Dump :=
  record ("&ast." ++ head) (("Loc", span s) :: parts)

def expr : Expr → Dump
  | .number s digits => node "NumLiteral" s (string "Value" digits)
  | .binary s op left right =>
    node "BinaryExpr" s (tokenKind "Op" op ++ [("Left", expr left), ("Right", expr right)])
  | .foreign s _ => node "Foreign" s []

def stmt : Stmt → Dump
  | .greet s name => node "SayHi" s (string "Value" name)
  | .print s value => node "PrintStmt" s [("Value", expr value)]
  | .evaluate s value => node "ExprStmt" s [("Value", expr value)]
  | .foreign s _ => node "Foreign" s []

def program (p : Program) : Dump :=
  node "Prog" p.span
    (if p.body.isEmpty then [] else [("Body", list "[]ast.Stmt" (p.body.map stmt))])

end Dump

end HiToolchain
