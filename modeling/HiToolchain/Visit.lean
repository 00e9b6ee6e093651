import HiToolchain.Fault

/-!
Selective walks. A walk is opened for some kinds of node: it records a node of such a kind and
goes on to its children from left to right, and passes over every other node with all that is
below it.
-/

namespace HiToolchain

namespace Visit

/-- What a walk makes of a node: nothing where it is passed over, else its own text or the parts
it is built from. -/
inductive Result where
  | nothing
  | text (s : String)
  | parts (items : List Result)
  deriving Repr, Inhabited

/-- A node that was recorded: its kind and its canonical text. -/
structure Sighting where
  kind : NodeKind
  text : String
  deriving DecidableEq, Repr, Inhabited

namespace Sighting

def line (s : Sighting) : String :=
  s.kind.name ++ " " ++ s.text

end Sighting

/-- A walk yields a result and the nodes recorded on the way, in order. -/
abbrev Walk := Except WalkFault (Result × List Sighting)

/-- Passes over a node of a kind that is not opened, and records any other before `inside`. -/
def enter (opens : NodeKind → Bool) (kind : NodeKind) (text : String) (inside : Walk) : Walk :=
  if opens kind then do
    let (result, seen) ← inside
    return (result, ⟨kind, text⟩ :: seen)
  else return (.nothing, [])

end Visit

open Visit

namespace Expr

def visit (opens : NodeKind → Bool) : Expr → Walk
  | e@(number _ digits) => enter opens .number e.text (return (.text digits, []))
  | e@(binary _ op left right) => enter opens .binary e.text do
    let (l, seenLeft) ← left.visit opens
    let (r, seenRight) ← right.visit opens
    return (.parts [.text op.name, l, r], seenLeft ++ seenRight)
  | foreign _ node => throw (.unhandledExpr node)

end Expr

namespace Stmt

def visit (opens : NodeKind → Bool) : Stmt → Walk
  | s@(greet _ name) => enter opens .greeting s.text (return (.text name, []))
  | s@(print _ value) => enter opens .printing s.text do
    let (r, seen) ← value.visit opens
    return (.parts [.text "print", r], seen)
  | s@(evaluate _ value) => enter opens .evaluation s.text do
    let (r, seen) ← value.visit opens
    return (.parts [.text "expr", r], seen)
  | foreign _ node => throw (.unhandledStmt node)

end Stmt

/-- Statements in order. -/
def visitStmts (opens : NodeKind → Bool) :
    List Stmt → Except WalkFault (List Result × List Sighting)
  | [] => return ([], [])
  | s :: rest => do
    let (r, seen) ← s.visit opens
    let (results, seenRest) ← visitStmts opens rest
    return (r :: results, seen ++ seenRest)

namespace Program

def visit (opens : NodeKind → Bool) (p : Program) : Walk :=
  enter opens .program p.text do
    let (results, seen) ← visitStmts opens p.body
    return (.parts results, seen)

end Program

end HiToolchain
