import HiToolchain.Ir.Module
import HiToolchain.Number

/-!
Lowering programs to intermediate code. Expressions become arithmetic on doubles, and a `print`
chooses its format when it runs, by the rule that also chooses the notation of a printed number.
-/

namespace HiToolchain.Ir

/-- Lowering extends a module, or ends with a fault of the program. -/
abbrev Lower := StateT Module (Except WalkFault)

namespace Lower

/-- Appends an instruction and yields its result. -/
def emit (i : Instr) : Lower Operand := fun m =>
  .ok (.result m.body.size, { m with body := m.body.push i })

/-- The index of the global that holds `text`, which is made on first use. -/
def global (text : String) : Lower Nat := fun m =>
  match m.globals.idxOf? text with
  | some i => .ok (i, m)
  | none => .ok (m.globals.size, { m with globals := m.globals.push text })

/-- The address of a global with the given text. -/
def textAddress (text : String) : Lower Operand := do
  emit (.address (← global text))

def textFormat : String := "%s\n"

def integralFormat : String := "%.0f\n"

def generalFormat : String := "%.17g\n"

/-- The address of the format for a number: whole numbers below `1e21` have their own. -/
def numberFormat (x : Operand) : Lower Operand := do
  let whole ← emit (.trunc x)
  let integral ← emit (.compare .equal x whole)
  let size ← emit (.abs x)
  let small ← emit (.compare .less size (.constant Binary64.positionalBound))
  let condition ← emit (.both integral small)
  let plain ← textAddress integralFormat
  let general ← textAddress generalFormat
  emit (.select condition plain general)

end Lower

end HiToolchain.Ir

namespace HiToolchain

open Ir Lower

namespace TokenKind

/-- The instruction that an operator becomes. -/
def instr? (op : TokenKind) (x y : Operand) : Option Instr :=
  match op with
  | plus => some (.arith .add x y)
  | minus => some (.arith .sub x y)
  | times => some (.arith .mul x y)
  | divide => some (.arith .div x y)
  | power => some (.power x y)
  | _ => none

end TokenKind

namespace Expr

/-- The operand that holds the value of an expression; operands come before their operator, the
left one first. -/
def lower : Expr → Lower Operand
  | number span digits =>
    match Literal.value digits span with
    | .ok v => return .constant v
    | .error fault => throw (.evaluation fault)
  | binary span op left right => do
    let x ← left.lower
    let y ← right.lower
    match op.instr? x y with
    | some i => emit i
    | none => throw (.evaluation ⟨.unknownOperator op, span⟩)
  | foreign _ node => throw (.unhandledExpr node)

end Expr

namespace Stmt

def lower : Stmt → Lower Unit
  | greet _ name => do
    let text ← textAddress ("hi " ++ name)
    let format ← textAddress textFormat
    discard <| emit (.printText format text)
  | print _ value => do
    let x ← value.lower
    let format ← numberFormat x
    discard <| emit (.printNumber format x)
  | evaluate _ value => discard value.lower
  | foreign _ node => throw (.unhandledStmt node)

end Stmt

def lowerStmts : List Stmt → Lower Unit
  | [] => return ()
  | s :: rest => do
    s.lower
    lowerStmts rest

namespace Program

/-- The module of a program. -/
def lower (p : Program) : Except WalkFault Module := do
  let (_, m) ← lowerStmts p.body ⟨#[], #[]⟩
  return m

end Program

end HiToolchain
