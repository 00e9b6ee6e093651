import HiToolchain.Text.Hex
import HiToolchain.Text.Utf8

/-!
String literals: the bytes that a text between double quotes, single quotes or backquotes stands
for. Escapes may denote single bytes, so a literal does not always denote text.
-/

namespace HiToolchain.StringLiteral

open Utf8 (Piece)

/-- The character that an escape of one letter stands for. -/
def shortEscape? (c : Char) : Option Char :=
  match c with
  | 'a' => some (Char.ofNat 0x07)
  | 'b' => some (Char.ofNat 0x08)
  | 't' => some '\t'
  | 'n' => some '\n'
  | 'v' => some (Char.ofNat 0x0b)
  | 'f' => some (Char.ofNat 0x0c)
  | 'r' => some '\r'
  | '\\' => some '\\'
  | _ => none

/-- The number of digits of an escape by hexadecimal code. -/
def codeLength? (c : Char) : Option Nat :=
  match c with
  | 'x' => some 2
  | 'u' => some 4
  | 'U' => some 8
  | _ => none

def isOctal (c : Char) : Bool :=
  '0' ≤ c && c ≤ '7'

def octalNumber (digits : List Char) : Nat :=
  digits.foldl (fun n c => 8 * n + (c.toNat - '0'.toNat)) 0

/-- The characters before the first stray byte. -/
def leadingChars : List Piece → List Char
  | .char c :: rest => c :: leadingChars rest
  | _ => []

/-- What an escape denotes and how many characters follow its backslash. Two hexadecimal or three
octal digits give a byte, longer codes a character, and a quote is escaped only between its own
kind. -/
def escape? (quote : Char) (rest : List Char) : Option (Piece × Nat) :=
  match rest with
  | [] => none
  | e :: digits =>
    if e == quote then some (.char e, 1)
    else match shortEscape? e, codeLength? e with
      | some c, _ => some (.char c, 1)
      | none, some length =>
        let digits := digits.take length
        if digits.length < length then none
        else match hexNumber? digits with
          | none => none
          | some n =>
            if e == 'x' then some (.stray (.ofNat n), 3)
            else if n.isValidChar then some (.char (Char.ofNat n), 1 + length)
            else none
      | none, none =>
        let digits := rest.take 3
        if digits.length == 3 && digits.all isOctal && octalNumber digits < 256 then
          some (.stray (.ofNat (octalNumber digits)), 3)
        else none

/-- What stands between quotes, up to the closing quote, which has to be the last character. A
line break ends no literal, and a stray byte is replaced. `skip` characters of an escape are
still to be passed over. -/
def body? (quote : Char) : (skip : Nat) → List Piece → Option (List Piece)
  | _, [] => none
  | skip + 1, _ :: rest => body? quote skip rest
  | 0, .stray _ :: rest => (body? quote 0 rest).map (.char Utf8.replacement :: ·)
  | 0, .char c :: rest =>
    if c == quote then if rest.isEmpty then some [] else none
    else if c == '\n' then none
    else if c == '\\' then
      match escape? quote (leadingChars (rest.take 9)) with
      | none => none
      | some (piece, length) => (body? quote length rest).map (piece :: ·)
    else (body? quote 0 rest).map (.char c :: ·)

/-- What stands between backquotes: everything but carriage returns. -/
def rawBody? : List Piece → Option (List Piece)
  | [] => none
  | piece :: rest =>
    if piece == .char '`' then if rest.isEmpty then some [] else none
    else if piece == .char '\r' then rawBody? rest
    else (rawBody? rest).map (piece :: ·)

/-- The bytes that a literal denotes. Between single quotes stands at most one character. -/
def value? (literal : ByteArray) : Option ByteArray :=
  match Utf8.pieces literal with
  | .char '"' :: rest => (body? '"' 0 rest).map Utf8.join
  | .char '\'' :: rest =>
    (body? '\'' 0 rest).bind fun pieces =>
      if pieces.length ≤ 1 then some (Utf8.join pieces) else none
  | .char '`' :: rest => (rawBody? rest).map Utf8.join
  | _ => none

end HiToolchain.StringLiteral
