import HiToolchain.Fault
import HiToolchain.Yaml.Doc

/-!
Programs as documents. Every node is a mapping from its type on, but for numbers, which are their
digits.
-/

namespace HiToolchain

open Yaml

/-- The mapping of a node: its type, then its parts. -/
def nodeDoc (kind : NodeKind) (parts : List (String × Doc)) : Doc :=
  .mapping (("type", .scalar kind.name) :: parts)

namespace Expr

def outline : Expr → Except WalkFault Doc
  | number _ digits => return .scalar digits
  | binary _ op left right => do
    let l ← left.outline
    let r ← right.outline
    return nodeDoc .binary [("op", .scalar op.name), ("left", l), ("right", r)]
  | foreign _ node => throw (.unhandledExpr node)

end Expr

namespace Stmt

def outline : Stmt → Except WalkFault Doc
  | greet _ name => return nodeDoc .greeting [("value", .scalar name)]
  | print _ value => do return nodeDoc .printing [("value", ← value.outline)]
  | evaluate _ value => do return nodeDoc .evaluation [("value", ← value.outline)]
  | foreign _ node => throw (.unhandledStmt node)

end Stmt

namespace Program

/-- The document of a program. -/
def outline (p : Program) : Except WalkFault Doc := do
  return nodeDoc .program [("body", .list (← p.body.mapM Stmt.outline))]

end Program

end HiToolchain
