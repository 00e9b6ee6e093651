/-!
Places in a source text. A position names the last character read: its offset counts raw
characters from zero and is `-1` before the first one, lines count from one, and columns count
the logical characters of the line read so far.
-/

namespace HiToolchain

structure Position where
  offset : Int
  line : Int
  column : Int
  deriving DecidableEq, Repr, Inhabited

namespace Position

/-- The position before the first character of a text. -/
def start : Position := ⟨-1, 1, 0⟩

/-- Line and column as they appear in diagnostics. -/
def describe (p : Position) : String :=
  toString p.line ++ ":" ++ toString p.column

end Position

/-- From the position before the first character to the position of the last one. -/
structure Span where
  start : Position
  stop : Position
  deriving DecidableEq, Repr, Inhabited

namespace Span

/-- The empty span at a position. -/
def point (p : Position) : Span := ⟨p, p⟩

def describe (s : Span) : String :=
  s.start.describe ++ "-" ++ s.stop.describe

end Span

end HiToolchain
