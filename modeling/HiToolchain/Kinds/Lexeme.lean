import HiToolchain.Kinds.Token
import HiToolchain.Text.Letter
import HiToolchain.Text.StringLiteral

/-!
Lexemes: how far a token or a gap between tokens reaches, and what is wrong with it. A text can
have more than one problem; of those in one token and the gap before it, the last one counts.
-/

namespace HiToolchain.Kinds

/-- The length of a stretch of text, and its last problem with the number of characters read when
it showed. -/
structure Extent where
  length : Nat
  problem : Option (Nat × Problem)

namespace Extent

/-- The same stretch, seen from `n` characters before it. -/
def shift (n : Nat) (e : Extent) : Extent :=
  ⟨n + e.length, e.problem.map fun (place, problem) => (n + place, problem)⟩

/-- Two stretches, one after the other. -/
def append (a b : Extent) : Extent :=
  let b := b.shift a.length
  ⟨b.length, b.problem <|> a.problem⟩

def clean (n : Nat) : Extent := ⟨n, none⟩

/-- A stretch that breaks off after `n` characters. -/
def broken (n : Nat) (problem : Problem) : Extent := ⟨n, some (n, problem)⟩

end Extent

/-- The blanks that divide tokens. -/
def isGap (c : Char) : Bool :=
  c == ' ' || c == '\t' || c == '\n' || c == '\r'

/-- From behind the opening of a comment to behind its end. -/
def blockComment : List Char → Extent
  | '*' :: '/' :: _ => .clean 2
  | _ :: rest => (blockComment rest).shift 1
  | [] => .broken 0 .unterminatedComment

/-- Blanks and comments. -/
def gap (cs : List Char) : Extent :=
  match cs with
  | '/' :: '/' :: rest =>
    let n := (rest.takeWhile (· != '\n')).length
    (gap (rest.drop n)).shift (2 + n)
  | '/' :: '*' :: rest =>
    let comment := blockComment rest
    (comment.append (gap (rest.drop comment.length))).shift 2
  | c :: rest => if isGap c then (gap rest).shift 1 else .clean 0
  | [] => .clean 0
termination_by cs.length
decreasing_by all_goals simp only [List.length_cons, List.length_drop]; omega

/-- The characters of an escape behind its backslash. -/
def escape (quote : Char) (cs : List Char) : Extent :=
  match cs with
  | [] => .broken 0 .badEscape
  | e :: rest =>
    if e == quote || (StringLiteral.shortEscape? e).isSome then .clean 1
    else
      let digits (isDigit : Char → Bool) (start width : Nat) (ds : List Char) : Extent :=
        let n := ((ds.take width).takeWhile isDigit).length
        if n < width then .broken (start + n) .badEscape else .clean (start + n)
      match StringLiteral.codeLength? e with
      | some width => digits (fun c => (hexValue? c).isSome) 1 width rest
      | none =>
        if StringLiteral.isOctal e then digits StringLiteral.isOctal 0 3 cs
        else .broken 0 .badEscape

/-- From behind the opening quote to behind the closing one. A line break ends a literal too. -/
def literalBody (quote : Char) (cs : List Char) : Extent :=
  match cs with
  | [] => .broken 0 .unterminatedLiteral
  | c :: rest =>
    if c == quote then .clean 1
    else if c == '\n' then ⟨1, some (0, .unterminatedLiteral)⟩
    else if c == '\\' then
      let e := escape quote rest
      (e.append (literalBody quote (rest.drop e.length))).shift 1
    else (literalBody quote rest).shift 1
termination_by cs.length
decreasing_by all_goals simp only [List.length_cons, List.length_drop]; omega

/-- From behind an opening backquote to behind the closing one. -/
def rawBody : List Char → Extent
  | [] => .broken 0 .unterminatedLiteral
  | c :: rest => if c == '`' then .clean 1 else (rawBody rest).shift 1

def isNameStart (c : Char) : Bool :=
  c == '_' || isLetter c

def isNamePart (c : Char) : Bool :=
  isNameStart c || isDecimalDigit c

/-- The forms of a token. -/
inductive Form where
  | name
  | number
  | quoted
  | char
  | raw
  | symbol
  deriving DecidableEq, Repr

def number (cs : List Char) : Extent :=
  let parts := NumberParts.ofChars cs
  ⟨parts.length, (parts.problems cs).getLast?.map fun (place, p) => (place, .number p)⟩

/-- The form and extent of the token that starts with `c`. -/
def lexeme (c : Char) (rest : List Char) : Form × Extent :=
  if isNameStart c then (.name, .clean (1 + (rest.takeWhile isNamePart).length))
  else if c.isDigit || (c == '.' && rest.head?.any Char.isDigit) then (.number, number (c :: rest))
  else if c == '"' then (.quoted, (literalBody c rest).shift 1)
  else if c == '\'' then (.char, (literalBody c rest).shift 1)
  else if c == '`' then (.raw, (rawBody rest).shift 1)
  else (.symbol, .clean 1)

/-- The last NUL among the characters from `seen` to `n`. -/
def lastNul? (cs : List Char) (seen n : Nat) : Option Nat :=
  ((cs.take (n + 1)).zipIdx.filter fun (c, i) =>
    seen ≤ i && c == Char.ofNat 0).getLast?.map (·.2)

/-- The last problem of a stretch of text. A NUL is a problem as soon as it is looked at, and the
character behind the stretch is looked at to find its end; `seen` were looked at before. -/
def Extent.problemIn (e : Extent) (seen : Nat) (cs : List Char) : Option (Nat × Problem) :=
  match e.problem, lastNul? cs seen e.length with
  | some (i, problem), some n => if i < n then some (n, .nul) else some (i, problem)
  | some problem, none => some problem
  | none, some n => some (n, .nul)
  | none, none => none

/-- The token of a form that is written with these characters. -/
def Form.token (form : Form) (chars : List Char) (place : Place) : Except Fault Token :=
  let inner := (chars.drop 1).dropLast
  let unquoted (literal : String) : Except Fault ByteArray :=
    match StringLiteral.value? literal.toUTF8 with
    | some value => .ok value
    | none => .error ⟨place, .badLiteral literal⟩
  match form with
  | .name => .ok ⟨.name, (String.ofList chars).toUTF8, place⟩
  | .number | .symbol => .ok ⟨.other, (String.ofList chars).toUTF8, place⟩
  | .raw => .ok ⟨.other, (String.ofList inner).toUTF8, place⟩
  | .quoted => do
    return ⟨.text, ← unquoted (String.ofList chars), place⟩
  | .char => do
    let value ← unquoted ("\"" ++ String.ofList inner ++ "\"")
    return ⟨if 1 < (Utf8.pieces value).length then .text else .other, value, place⟩

/-- The tokens of a text that starts at a place, the end included, up to the first fault. -/
def tokensFrom (cs : List Char) (seen : Nat) (place : Place) : Except Fault (List Token) :=
  let before := gap cs
  let start := place.afterAll (cs.take before.length)
  match h : cs.drop before.length with
  | [] =>
    match before.problemIn seen cs with
    | some (n, problem) => .error ⟨place.afterAll (cs.take n), problem⟩
    | none => .ok [⟨.finish, .empty, start⟩]
  | c :: rest =>
    let (form, extent) := lexeme c rest
    match (before.append extent).problemIn seen cs with
    | some (n, problem) => .error ⟨place.afterAll (cs.take n), problem⟩
    | none => do
      let token ← form.token ((c :: rest).take extent.length) start
      let more := rest.drop (extent.length - 1)
      have : rest.length < cs.length := by
        have := congrArg List.length h
        simp only [List.length_drop, List.length_cons] at this
        omega
      let tokens ← tokensFrom more 1 (start.afterAll ((c :: rest).take extent.length))
      return token :: tokens
termination_by cs.length
decreasing_by
  simp only [List.length_drop]
  omega

/-- The tokens of a text. A byte order mark in front is passed over. -/
def tokens (text : String) : Except Fault (List Token) :=
  match text.toList with
  | '\uFEFF' :: rest => tokensFrom rest 0 ⟨1, 2⟩
  | cs => tokensFrom cs 0 ⟨1, 1⟩

end HiToolchain.Kinds
