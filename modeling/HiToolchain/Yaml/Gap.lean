import HiToolchain.Yaml.Input

/-!
Gaps in scalars that run over several lines: blanks within a line are kept, a single line break
becomes a space, and of several line breaks the first is dropped.
-/

namespace HiToolchain.Yaml

/-- The blanks and line breaks between two words. Once a line has ended, `first` is its break
(empty if it was escaped) and `others` are the breaks after it; blanks then count for nothing. -/
structure Gap where
  blanks : List Char
  broken : Bool
  first : List Char
  others : List Char
  deriving DecidableEq, Repr, Inhabited

namespace Gap

def empty : Gap := ⟨[], false, [], []⟩

/-- The gap at the start of a line whose break was escaped. -/
def escapedBreak : Gap := ⟨[], true, [], []⟩

def addBlank (g : Gap) (c : Char) : Gap :=
  if g.broken then g else { g with blanks := g.blanks ++ [c] }

def addBreak (g : Gap) (c : Char) : Gap :=
  if g.broken then { g with others := g.others ++ [c] } else ⟨[], true, [c], []⟩

/-- What a gap stands for. -/
def text (g : Gap) : List Char :=
  if !g.broken then g.blanks
  else if g.first = ['\n'] then if g.others.isEmpty then [' '] else g.others
  else g.first ++ g.others

/-- Reads a gap from the characters of `rest` on. At the start of a line a tab may not stand
before column `least`. -/
def readFrom (least : Nat) : Gap → Mark → List Char → Except Fault (Gap × Input)
  | g, m, [] => .ok (g, ⟨m, []⟩)
  | g, m, '\r' :: '\n' :: rest => readFrom least (g.addBreak '\n') (m.nextLine 2) rest
  | g, m, c :: rest =>
    if isBlank c then
      if g.broken && c == '\t' && m.column < least then .error (.inText .plainTab m.line)
      else readFrom least (g.addBlank c) (m.forward 1) rest
    else if isBreak c then readFrom least (g.addBreak (breakText c)) (m.nextLine 1) rest
    else .ok (g, ⟨m, c :: rest⟩)

def read (least : Nat) (g : Gap) (i : Input) : Except Fault (Gap × Input) :=
  readFrom least g i.mark i.rest

end Gap

end HiToolchain.Yaml
