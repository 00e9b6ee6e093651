import HiToolchain.Kinds.Number
import HiToolchain.Text.Quoted

/-!
Tokens of kind declarations and the faults of a text that cannot be read.
-/

namespace HiToolchain.Kinds

/-- Line and column of a character, both from one. -/
structure Place where
  line : Nat
  column : Nat
  deriving DecidableEq, Repr

namespace Place

/-- The place of the character after `c`. -/
def after (p : Place) (c : Char) : Place :=
  if c == '\n' then ⟨p.line + 1, 1⟩ else ⟨p.line, p.column + 1⟩

/-- The place of the character after all of these. -/
def afterAll (p : Place) (cs : List Char) : Place :=
  cs.foldl after p

def describe (p : Place) : String :=
  toString p.line ++ ":" ++ toString p.column

end Place

inductive TokenSort where
  | name
  | text
  /-- Numbers, single characters, raw text and symbols. -/
  | other
  | finish
  deriving DecidableEq, Repr

/-- A token with what it denotes: for a literal the bytes between its quotes. -/
structure Token where
  sort : TokenSort
  value : ByteArray
  place : Place

namespace Token

/-- The value as it appears in diagnostics. -/
def shown (t : Token) : ByteArray :=
  if t.sort = .finish then "<EOF>".toUTF8 else t.value

end Token

/-- The five places of a declaration, in their order. -/
inductive Slot where
  | keyword
  | name
  | equals
  | tag
  | semicolon
  deriving DecidableEq, Repr

namespace Slot

def next : Slot → Slot
  | keyword => name
  | name => equals
  | equals => tag
  | tag => semicolon
  | semicolon => keyword

/-- The words of a declaration are known by their value alone, however they are written. -/
def accepts (s : Slot) (t : Token) : Bool :=
  match s with
  | keyword => t.value == "kind".toUTF8
  | name => t.sort == .name
  | equals => t.value == "=".toUTF8
  | tag => t.sort == .text
  | semicolon => t.value == ";".toUTF8

/-- What was expected, but for the start of a declaration, where the text might also end. -/
def expectation : Slot → String
  | keyword => ""
  | name => " (expected <ident>)"
  | equals => " (expected \"=\")"
  | tag => " (expected <string>)"
  | semicolon => " (expected \";\")"

end Slot

inductive Problem where
  | unterminatedLiteral
  | unterminatedComment
  | badEscape
  | nul
  | number (problem : NumberProblem)
  | badLiteral (literal : String)
  | unexpected (value : ByteArray) (slot : Slot)

namespace Problem

def message : Problem → String
  | unterminatedLiteral => "literal not terminated"
  | unterminatedComment => "comment not terminated"
  | badEscape => "invalid char escape"
  | nul => "invalid character NUL"
  | number problem => problem.message
  | badLiteral literal => "invalid syntax: " ++ quoted literal
  | unexpected value slot => "unexpected token " ++ quotedBytes value ++ slot.expectation

end Problem

structure Fault where
  place : Place
  problem : Problem

namespace Fault

def message (f : Fault) : String :=
  f.place.describe ++ ": " ++ f.problem.message

end Fault

end HiToolchain.Kinds
