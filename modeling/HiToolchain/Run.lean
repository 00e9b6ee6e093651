import HiToolchain.Number

/-!
Running programs. A greeting and a `print` write one line each, statement by statement, until a
statement fails or the output takes no more.
-/

namespace HiToolchain

/-- Why a run ended early. -/
inductive RunFault where
  | walk (fault : WalkFault)
  | closed
  deriving DecidableEq, Repr

namespace RunFault

def message : RunFault → String
  | walk f => f.message
  | closed => "closed"

end RunFault

namespace TokenKind

/-- The function that an operator denotes. -/
def operation? [Elementary] : TokenKind → Option (Binary64 → Binary64 → Binary64)
  | plus => some Binary64.add
  | minus => some Binary64.sub
  | times => some Binary64.mul
  | divide => some Binary64.div
  | power => some Binary64.pow
  | _ => none

end TokenKind

namespace Expr

/-- The value of an expression; operands come before their operator, the left one first. -/
def eval [Elementary] : Expr → Except WalkFault Binary64
  | number span digits => (Literal.value digits span).mapError .evaluation
  | binary span op left right => do
    let x ← left.eval
    let y ← right.eval
    match op.operation? with
    | some f => return f x y
    | none => throw (.evaluation ⟨.unknownOperator op, span⟩)
  | foreign _ node => throw (.unhandledExpr node)

end Expr

namespace Stmt

/-- The line that a statement writes, if it writes one. -/
def line? [Elementary] : Stmt → Except WalkFault (Option String)
  | greet _ name => return some ("hi " ++ name)
  | print _ value => do return some (← value.eval).text
  | evaluate _ value => do
    let _ ← value.eval
    return none
  | foreign _ node => throw (.unhandledStmt node)

end Stmt

/-- The lines that statements write into an output with room for `room` more lines, or for any
number, and the fault that ended the run. -/
def runStmts [Elementary] : Option Nat → List Stmt → List String × Option RunFault
  | _, [] => ([], none)
  | room, s :: rest =>
    match s.line? with
    | .error fault => ([], some (.walk fault))
    | .ok none => runStmts room rest
    | .ok (some line) =>
      match room with
      | some 0 => ([], some .closed)
      | _ =>
        let (lines, fault) := runStmts (room.map (· - 1)) rest
        (line :: lines, fault)

namespace Program

/-- Runs a program into an output that never fails. -/
def run [Elementary] (p : Program) : List String × Option RunFault :=
  runStmts none p.body

/-- Runs a program into an output that accepts `room` lines. -/
def runInto [Elementary] (room : Nat) (p : Program) : List String × Option RunFault :=
  runStmts (some room) p.body

end Program

/-- The text of written lines. -/
def linesText (lines : List String) : String :=
  String.join (lines.map (· ++ "\n"))

end HiToolchain
