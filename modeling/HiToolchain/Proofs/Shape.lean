import HiToolchain.Tree
import Mathlib.Tactic.Common

/-!
# The shape of a tree

What is left of a tree without its spans, the lexemes that it stands for from left to right, and
the normal form in which these lexemes can be read without parentheses.
-/

namespace HiToolchain

def TokenKind.isAdditive (k : TokenKind) : Bool := k = .plus || k = .minus

def TokenKind.isMultiplicative (k : TokenKind) : Bool := k = .times || k = .divide

/-- A kind of token with the value that goes with it. -/
abbrev Lexeme := TokenKind × String

def Token.lexeme (t : Token) : Lexeme := (t.kind, t.value)

namespace Expr

/-- The tree with every span taken away. -/
def bare : Expr → Expr
  | number _ digits => number default digits
  | binary _ op left right => binary default op left.bare right.bare
  | foreign _ node => foreign default node

/-- The leaves and operators from left to right. -/
def lexemes : Expr → List Lexeme
  | number _ digits => [(.number, digits)]
  | binary _ op left right => left.lexemes ++ (op, "") :: right.lexemes
  | foreign .. => []

def isNumber : Expr → Bool
  | number .. => true
  | _ => false

def isSum : Expr → Bool
  | binary _ op _ _ => op.isAdditive
  | _ => false

def isFactor : Expr → Bool
  | number .. => true
  | binary _ op _ _ => op = .power
  | foreign .. => false

/-- Precedence normal form. Sums group to the left; a product groups to the left, has no sum below
it, and ends with a factor; a power groups to the right and has a number for its base. -/
def isNormal : Expr → Bool
  | number .. => true
  | binary _ op left right => left.isNormal && right.isNormal &&
    (op.isAdditive && !right.isSum ||
      op.isMultiplicative && !left.isSum && right.isFactor ||
      op = .power && left.isNumber && right.isFactor)
  | foreign .. => false

end Expr

namespace Stmt

def bare : Stmt → Stmt
  | greet _ name => greet default name
  | print _ value => print default value.bare
  | evaluate _ value => evaluate default value.bare
  | foreign _ node => foreign default node

def lexemes : Stmt → List Lexeme
  | greet _ name => [(.hi, "hi"), (.string, name)]
  | print _ value => (.print, "print") :: value.lexemes
  | evaluate _ value => value.lexemes
  | foreign .. => []

def isNormal : Stmt → Bool
  | greet .. => true
  | print _ value => value.isNormal
  | evaluate _ value => value.isNormal
  | foreign .. => false

end Stmt

namespace Program

def bare (p : Program) : Program := ⟨default, p.body.map Stmt.bare⟩

def lexemes (p : Program) : List Lexeme := p.body.flatMap Stmt.lexemes

def isNormal (p : Program) : Bool := p.body.all Stmt.isNormal

end Program

/-! ### Trees without spans -/

lemma Expr.bare_bare (e : Expr) : e.bare.bare = e.bare := by
  induction e with
  | binary span op left right ihleft ihright => rw [Expr.bare, Expr.bare, ihleft, ihright]
  | _ => rfl

lemma Expr.lexemes_bare (e : Expr) : e.bare.lexemes = e.lexemes := by
  induction e with
  | binary span op left right ihleft ihright =>
    rw [Expr.bare, Expr.lexemes, ihleft, ihright, Expr.lexemes]
  | _ => rfl

lemma Expr.isNormal_bare (e : Expr) : e.bare.isNormal = e.isNormal := by
  have hroot : ∀ e : Expr, e.bare.isSum = e.isSum ∧ e.bare.isFactor = e.isFactor ∧
      e.bare.isNumber = e.isNumber := by
    intro e
    cases e <;> exact ⟨rfl, rfl, rfl⟩
  induction e with
  | binary span op left right ihleft ihright =>
    simp only [Expr.bare, Expr.isNormal, ihleft, ihright, hroot]
  | _ => rfl

lemma Stmt.bare_bare (s : Stmt) : s.bare.bare = s.bare := by
  cases s <;> simp [Stmt.bare, Expr.bare_bare]

lemma Stmt.lexemes_bare (s : Stmt) : s.bare.lexemes = s.lexemes := by
  cases s <;> simp [Stmt.bare, Stmt.lexemes, Expr.lexemes_bare]

lemma Stmt.isNormal_bare (s : Stmt) : s.bare.isNormal = s.isNormal := by
  cases s <;> simp [Stmt.bare, Stmt.isNormal, Expr.isNormal_bare]

lemma Program.bare_bare (p : Program) : p.bare.bare = p.bare := by
  simp [Program.bare, Stmt.bare_bare]

lemma Program.lexemes_bare (p : Program) : p.bare.lexemes = p.lexemes := by
  simp [Program.bare, Program.lexemes, List.flatMap_map, Stmt.lexemes_bare]

lemma Program.isNormal_bare (p : Program) : p.bare.isNormal = p.isNormal := by
  simp [Program.bare, Program.isNormal, List.all_map, Function.comp_def, Stmt.isNormal_bare]

/-! ### Operators -/

lemma isOperator_iff {k : TokenKind} :
    k.isOperator ↔ k.isAdditive ∨ k.isMultiplicative ∨ k = .power := by
  cases k <;> simp [TokenKind.isOperator, TokenKind.isAdditive, TokenKind.isMultiplicative]

lemma not_additive_of_multiplicative {k : TokenKind} (h : k.isMultiplicative) :
    k.isAdditive = false := by
  cases k <;> simp_all [TokenKind.isAdditive, TokenKind.isMultiplicative]

/-! ### Normal trees by their operator -/

/-- The three ways in which an operation is in normal form. -/
inductive NormalOperation (op : TokenKind) (left right : Expr) : Prop
  | sum (hop : op.isAdditive) (hright : right.isSum = false)
  | product (hop : op.isMultiplicative) (hleft : left.isSum = false) (hright : right.isFactor)
  | power (hop : op = .power) (hleft : left.isNumber) (hright : right.isFactor)

lemma isNormal_binary {span : Span} {op : TokenKind} {left right : Expr} :
    (Expr.binary span op left right).isNormal ↔
      left.isNormal ∧ right.isNormal ∧ NormalOperation op left right := by
  rw [Expr.isNormal, Bool.and_eq_true, Bool.and_eq_true, and_assoc]
  refine and_congr_right fun _ => and_congr_right fun _ => ?_
  constructor
  · intro h
    simp only [Bool.or_eq_true, Bool.and_eq_true, Bool.not_eq_true', decide_eq_true_eq] at h
    obtain (⟨hop, hright⟩ | ⟨⟨hop, hleft⟩, hright⟩) | ⟨⟨hop, hleft⟩, hright⟩ := h
    · exact .sum hop hright
    · exact .product hop hleft hright
    · exact .power hop hleft hright
  · rintro (⟨hop, hright⟩ | ⟨hop, hleft, hright⟩ | ⟨rfl, hleft, hright⟩)
    · simp [hop, hright]
    · simp [hop, hleft, hright]
    · simp [hleft, hright]

lemma NormalOperation.isOperator {op : TokenKind} {left right : Expr}
    (h : NormalOperation op left right) : op.isOperator := by
  obtain ⟨hop, -⟩ | ⟨hop, -, -⟩ | ⟨rfl, -, -⟩ := h
  · exact isOperator_iff.mpr (.inl hop)
  · exact isOperator_iff.mpr (.inr (.inl hop))
  · rfl

lemma lexemes_of_isNormal {e : Expr} (h : e.isNormal) :
    ∃ digits rest, e.lexemes = (.number, digits) :: rest := by
  induction e with
  | number span digits => exact ⟨digits, [], rfl⟩
  | binary span op left right ihleft ihright =>
    obtain ⟨hleft, -, -⟩ := isNormal_binary.mp h
    obtain ⟨digits, rest, hrest⟩ := ihleft hleft
    exact ⟨digits, rest ++ (op, "") :: right.lexemes, by rw [Expr.lexemes, hrest]; rfl⟩
  | foreign span node => cases h

end HiToolchain
