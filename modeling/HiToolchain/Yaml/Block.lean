import HiToolchain.Yaml.Input

/-!
Reading block scalars. The header tells whether lines are kept or folded, how far they are
indented and what becomes of the line breaks at the end.
-/

namespace HiToolchain.Yaml

namespace Block

/-- What becomes of the line breaks at the end: none is kept, one, or all. -/
inductive Chomp where
  | strip
  | clip
  | keep
  deriving DecidableEq, Repr

structure Header where
  chomp : Chomp
  /-- The indentation relative to the surroundings, zero if the first line shows it. -/
  increment : Nat
  deriving DecidableEq, Repr

def readChomp (i : Input) : Option Chomp × Input :=
  if i.startsWith '+' then (some .keep, i.skip 1)
  else if i.startsWith '-' then (some .strip, i.skip 1)
  else (none, i)

def readIncrement (i : Input) : Except Fault (Nat × Input) :=
  match i.rest with
  | c :: _ =>
    if c == '0' then .error (i.fault .indentationZero)
    else if isDigit c then .ok (c.toNat - '0'.toNat, i.skip 1)
    else .ok (0, i)
  | [] => .ok (0, i)

/-- Reads the two signs of a header, in either order. -/
def readSigns (i : Input) : Except Fault (Header × Input) := do
  match readChomp i with
  | (some chomp, i) =>
    let (n, i) ← readIncrement i
    return (⟨chomp, n⟩, i)
  | (none, i) =>
    let (n, i) ← readIncrement i
    if n = 0 then return (⟨.clip, 0⟩, i)
    else
      let (chomp, i) := readChomp i
      return (⟨chomp.getD .clip, n⟩, i)

/-- Reads a header and the rest of its line. -/
def readHeader (i : Input) : Except Fault (Header × Input) := do
  let (header, i) ← readSigns i
  let i := (i.skipWhile isBlank).skipComment
  match i.rest with
  | [] => return (header, i)
  | c :: _ =>
    if isBreak c then return (header, i.readBreak.2) else throw (i.fault .blockHeaderEnd)

/-- Empty lines that were passed: their breaks, the furthest column of their blanks and of the
line that follows, and the text from there on. -/
structure Breaks where
  breaks : List Char
  furthest : Nat
  input : Input

/-- Passes indentation up to column `limit`, or all of it if that is zero, and empty lines. -/
def readBreaksFrom (limit : Nat) :
    Nat → List Char → Mark → List Char → Except Fault Breaks
  | furthest, breaks, m, [] => .ok ⟨breaks, max furthest m.column, ⟨m, []⟩⟩
  | furthest, breaks, m, '\r' :: '\n' :: rest =>
    readBreaksFrom limit (max furthest m.column) (breaks ++ ['\n']) (m.nextLine 2) rest
  | furthest, breaks, m, c :: rest =>
    let inside := limit = 0 || m.column < limit
    if inside && c == ' ' then readBreaksFrom limit furthest breaks (m.forward 1) rest
    else if inside && c == '\t' then .error (.inText .blockTab m.line)
    else if isBreak c then
      readBreaksFrom limit (max furthest m.column) (breaks ++ [breakText c]) (m.nextLine 1) rest
    else .ok ⟨breaks, max furthest m.column, ⟨m, c :: rest⟩⟩

def readBreaks (limit : Nat) (i : Input) : Except Fault Breaks :=
  readBreaksFrom limit 0 [] i.mark i.rest

/-- The value read so far, the break after its last line, and whether that line started with a
blank. -/
structure State where
  value : List Char
  lastBreak : List Char
  afterBlank : Bool

/-- The separator before a line. Folding makes a space of one break between lines that do not
start with blanks. -/
def separator (literal : Bool) (s : State) (breaks : List Char) (blank : Bool) : List Char :=
  if !literal && !s.afterBlank && !blank && s.lastBreak.head? == some '\n' then
    if breaks.isEmpty then [' '] else breaks
  else s.lastBreak ++ breaks

/-- Reads the lines indented by `indent` that follow the empty lines with the given breaks. -/
def readLines (literal : Bool) (chomp : Chomp) (indent : Nat) :
    Nat → State → List Char → Input → Except Fault (List Char × Input)
  | 0, s, _, i => .ok (s.value, i)
  | fuel + 1, s, breaks, i =>
    match i.rest with
    | c :: _ =>
      if i.column = indent then do
        let blank := isBlank c
        let (line, after) := i.readWhile (!isBreak ·)
        let (lastBreak, after) := after.readBreak
        let b ← readBreaks indent after
        readLines literal chomp indent fuel
          ⟨s.value ++ separator literal s breaks blank ++ line, lastBreak, blank⟩ b.breaks b.input
      else .ok (chomped s breaks, i)
    | [] => .ok (chomped s breaks, i)
where
  /-- The value with the line breaks at its end. -/
  chomped (s : State) (breaks : List Char) : List Char :=
    match chomp with
    | .strip => s.value
    | .clip => s.value ++ s.lastBreak
    | .keep => s.value ++ s.lastBreak ++ breaks

/-- Reads a block scalar from its sign on, in surroundings indented by `parent`. -/
def read (literal : Bool) (parent : Int) (i : Input) : Except Fault (List Char × Input) := do
  let (header, i) ← readHeader (i.skip 1)
  let fixed := if header.increment = 0 then 0 else (max parent 0).toNat + header.increment
  let b ← readBreaks fixed i
  let indent := if fixed = 0 then max b.furthest (max (parent + 1).toNat 1) else fixed
  readLines literal header.chomp indent (i.rest.length + 1) ⟨[], [], false⟩ b.breaks b.input

end Block

end HiToolchain.Yaml
