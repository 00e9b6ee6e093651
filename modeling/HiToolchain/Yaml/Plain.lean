import HiToolchain.Yaml.Gap

/-!
Reading plain scalars. A plain scalar ends at a colon before a blank, at a comment, at a document
marker, in brackets also at their punctuation, and outside of them at a line that is not indented
deeper than its surroundings.
-/

namespace HiToolchain.Yaml

/-- Characters that end a plain scalar in brackets. -/
def isFlowPunctuation (c : Char) : Bool :=
  ",?[]\x7b\x7d".toList.contains c

namespace Plain

/-- The length of the word that starts the text. -/
def wordLength (inFlow : Bool) : List Char → Nat
  | [] => 0
  | c :: rest =>
    if isBlank c || isBreak c then 0
    else if (c == ':' && isBlankOrEnd rest) || (inFlow && isFlowPunctuation c) then 0
    else wordLength inFlow rest + 1

/-- A plain scalar that was read, and whether it was followed by the end of its line. -/
structure Result where
  value : List Char
  endsLine : Bool
  input : Input

/-- Reads words and the gaps between them. -/
def readWords (inFlow : Bool) (least : Nat) :
    Nat → List Char → Gap → Input → Except Fault Result
  | 0, value, gap, i => .ok ⟨value, gap.broken, i⟩
  | fuel + 1, value, gap, i =>
    if i.atDocumentIndicator || i.startsWith '#' then .ok ⟨value, gap.broken, i⟩
    else
      let n := wordLength inFlow i.rest
      let word := i.rest.take n
      let i := i.skip n
      let (value, gap) := if word.isEmpty then (value, gap) else (value ++ gap.text ++ word, .empty)
      match i.rest with
      | [] => .ok ⟨value, gap.broken, i⟩
      | c :: _ =>
        if !(isBlank c || isBreak c) then .ok ⟨value, gap.broken, i⟩
        else do
          let (gap, i) ← gap.read least i
          if !inFlow && i.column < least then return ⟨value, gap.broken, i⟩
          else readWords inFlow least fuel value gap i

end Plain

/-- Reads a plain scalar; outside of brackets its lines start at column `least` or later. -/
def Plain.read (inFlow : Bool) (least : Nat) (i : Input) : Except Fault Plain.Result :=
  Plain.readWords inFlow least (i.rest.length + 1) [] .empty i

end HiToolchain.Yaml
