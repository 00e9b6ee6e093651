import HiToolchain.Proofs.Shape
import HiToolchain.Run

/-!
# Trees with other spans

A run looks at spans for one purpose only, to say where an evaluation failed. So with other spans
a program writes the same lines and stops at the same statement.
-/

namespace HiToolchain

def Expr.mapSpan (f : Span → Span) : Expr → Expr
  | number span digits => number (f span) digits
  | binary span op left right => binary (f span) op (left.mapSpan f) (right.mapSpan f)
  | foreign span node => foreign (f span) node

def Stmt.mapSpan (f : Span → Span) : Stmt → Stmt
  | greet span name => greet (f span) name
  | print span value => print (f span) (value.mapSpan f)
  | evaluate span value => evaluate (f span) (value.mapSpan f)
  | foreign span node => foreign (f span) node

def WalkFault.mapSpan (f : Span → Span) : WalkFault → WalkFault
  | evaluation fault => evaluation { fault with span := f fault.span }
  | fault => fault

def RunFault.mapSpan (f : Span → Span) : RunFault → RunFault
  | walk fault => walk (fault.mapSpan f)
  | closed => closed

/-- The fault without the place where it arose. -/
def RunFault.bare : RunFault → RunFault := mapSpan fun _ => default

variable (f : Span → Span)

lemma Expr.eval_mapSpan [Elementary] (e : Expr) :
    (e.mapSpan f).eval = e.eval.mapError (WalkFault.mapSpan f) := by
  induction e with
  | number span digits =>
    simp only [Expr.mapSpan, Expr.eval, Literal.value]
    cases Literal.value? digits <;> rfl
  | binary span op left right ihleft ihright =>
    rw [Expr.mapSpan, Expr.eval, Expr.eval, ihleft, ihright]
    cases left.eval with
    | error fault => rfl
    | ok x =>
      cases right.eval with
      | error fault => rfl
      | ok y => cases op with | _ => rfl
  | foreign span node => rfl

lemma Stmt.line_mapSpan [Elementary] (s : Stmt) :
    (s.mapSpan f).line? = s.line?.mapError (WalkFault.mapSpan f) := by
  cases s with
  | greet span name => rfl
  | print span value =>
    rw [Stmt.mapSpan, Stmt.line?, Stmt.line?, value.eval_mapSpan]
    cases value.eval <;> rfl
  | evaluate span value =>
    rw [Stmt.mapSpan, Stmt.line?, Stmt.line?, value.eval_mapSpan]
    cases value.eval <;> rfl
  | foreign span node => rfl

lemma runStmts_mapSpan [Elementary] (room : Option Nat) (body : List Stmt) :
    runStmts room (body.map (Stmt.mapSpan f)) =
      ((runStmts room body).1, (runStmts room body).2.map (RunFault.mapSpan f)) := by
  induction body generalizing room with
  | nil => rfl
  | cons s body ih =>
    rw [List.map_cons, runStmts, runStmts, s.line_mapSpan]
    cases s.line? with
    | error fault => rfl
    | ok line =>
      cases line with
      | none => exact ih room
      | some line =>
        simp only [Except.mapError]
        split
        · rfl
        · rw [ih]

/-! ### Shapes -/

lemma Expr.bare_eq_mapSpan (e : Expr) : e.bare = e.mapSpan fun _ => default := by
  induction e with
  | binary span op left right ihleft ihright =>
    rw [Expr.bare, ihleft, ihright, Expr.mapSpan]
  | _ => rfl

lemma Stmt.bare_eq_mapSpan (s : Stmt) : s.bare = s.mapSpan fun _ => default := by
  cases s <;> simp [Stmt.bare, Stmt.mapSpan, Expr.bare_eq_mapSpan]

/-- Statements of the same shapes write the same lines, and fail in the same way. -/
lemma runStmts_eq_of_bare [Elementary] {body body' : List Stmt}
    (h : body.map Stmt.bare = body'.map Stmt.bare) (room : Option Nat) :
    (runStmts room body).1 = (runStmts room body').1 ∧
      (runStmts room body).2.map RunFault.bare = (runStmts room body').2.map RunFault.bare := by
  have hbare : Stmt.bare = Stmt.mapSpan fun _ => default := funext Stmt.bare_eq_mapSpan
  have hrun := congrArg (runStmts room) h
  rw [hbare, runStmts_mapSpan, runStmts_mapSpan] at hrun
  exact Prod.mk.inj hrun

end HiToolchain
