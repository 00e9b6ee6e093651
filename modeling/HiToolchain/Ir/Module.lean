import HiToolchain.Binary64.Basic

/-!
Modules of intermediate code: string globals and one straight-line `main`. Every instruction has
a result, named by its index in the block.
-/

namespace HiToolchain.Ir

/-- What an instruction operates on: a double constant or the result of an earlier instruction. -/
inductive Operand where
  | constant (value : Binary64)
  | result (index : Nat)
  deriving DecidableEq, Repr, Inhabited

inductive Arith where
  | add
  | sub
  | mul
  | div
  deriving DecidableEq, Repr

/-- Ordered comparisons: false when an operand is a NaN. -/
inductive Predicate where
  | equal
  | less
  deriving DecidableEq, Repr

/-- The types of results. -/
inductive Ty where
  | double
  | bit
  | int
  | text
  deriving DecidableEq, Repr

inductive Instr where
  | arith (op : Arith) (x y : Operand)
  | power (x y : Operand)
  | trunc (x : Operand)
  | abs (x : Operand)
  | compare (predicate : Predicate) (x y : Operand)
  | both (a b : Operand)
  | address (global : Nat)
  | select (condition a b : Operand)
  | printNumber (format x : Operand)
  | printText (format text : Operand)
  deriving DecidableEq, Repr

namespace Instr

/-- The type of the result. -/
def ty : Instr → Ty
  | arith .. | power .. | trunc .. | abs .. => .double
  | compare .. | both .. => .bit
  | address .. | select .. => .text
  | printNumber .. | printText .. => .int

/-- The operands with the types that they must have. -/
def operands : Instr → List (Operand × Ty)
  | arith _ x y | power x y | compare _ x y => [(x, .double), (y, .double)]
  | trunc x | abs x => [(x, .double)]
  | both a b => [(a, .bit), (b, .bit)]
  | address _ => []
  | select c a b => [(c, .bit), (a, .text), (b, .text)]
  | printNumber f x => [(f, .text), (x, .double)]
  | printText f s => [(f, .text), (s, .text)]

end Instr

/-- The texts of the string globals and the instructions of `main`, both in order; the block ends
by returning zero. -/
structure Module where
  globals : Array String
  body : Array Instr
  deriving DecidableEq, Repr, Inhabited

end HiToolchain.Ir
