import HiToolchain.Kinds.Lexeme

/-!
Kind declarations: `kind Name = "tag";`, any number of them. The tokens of a text fill the slots
of a declaration in turn, so a text is accepted when every token fits its slot and the last
declaration is complete.
-/

namespace HiToolchain.Kinds

/-- A kind of node with the tag it is shown by. -/
structure Declaration where
  name : String
  tag : ByteArray

namespace Declaration

/-- A tag that reads as a literal once more stands for what that literal denotes. -/
def ofTokens (name tag : Token) : Declaration :=
  ⟨Utf8.decode name.value, (StringLiteral.value? tag.value).getD tag.value⟩

/-- Checks that the tokens fill the slots from `slot` on and end with a whole declaration. -/
def check (slot : Slot) : List Token → Except Fault Unit
  | [] => .ok ()
  | t :: rest =>
    if t.sort = .finish && slot = .keyword then .ok ()
    else if t.sort ≠ .finish && slot.accepts t then check slot.next rest
    else .error ⟨t.place, .unexpected t.shown slot⟩

/-- The declarations of tokens that fill their slots. -/
def group : List Token → List Declaration
  | _ :: name :: _ :: tag :: _ :: rest => ofTokens name tag :: group rest
  | _ => []

/-- The declarations of a text. -/
def parse (text : String) : Except Fault (List Declaration) := do
  let ts ← tokens text
  check .keyword ts
  return group ts

end Declaration

end HiToolchain.Kinds
