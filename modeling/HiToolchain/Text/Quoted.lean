import HiToolchain.Text.Hex
import HiToolchain.Text.Printable
import HiToolchain.Text.Utf8

/-!
Quoted text: double quotes around the characters, with escapes for quotes, backslashes, control
characters and everything that is not printable.
-/

namespace HiToolchain

namespace Quoted

/-- The letter that follows the backslash in the short escape of a control character. -/
def shortEscape? (c : Char) : Option Char :=
  match c.toNat with
  | 0x07 => some 'a'
  | 0x08 => some 'b'
  | 0x09 => some 't'
  | 0x0a => some 'n'
  | 0x0b => some 'v'
  | 0x0c => some 'f'
  | 0x0d => some 'r'
  | _ => none

/-- Escapes by code point: two digits for ASCII controls, then four, then eight. -/
def codeEscape (c : Char) : String :=
  let n := c.toNat
  if n < 0x20 || n == 0x7f then "\\x" ++ hexPadded 2 n
  else if n < 0x10000 then "\\u" ++ hexPadded 4 n
  else "\\U" ++ hexPadded 8 n

def escapeChar (c : Char) : String :=
  if c == '"' || c == '\\' then String.ofList ['\\', c]
  else match shortEscape? c with
    | some letter => String.ofList ['\\', letter]
    | none => if isPrintable c then c.toString else codeEscape c

def escapePiece : Utf8.Piece → String
  | .char c => escapeChar c
  | .stray b => "\\x" ++ hexPadded 2 b.toNat

end Quoted

/-- Text between double quotes, every character written so that it can be read back. -/
def quoted (s : String) : String :=
  "\"" ++ String.join (s.toList.map Quoted.escapeChar) ++ "\""

/-- Bytes between double quotes: characters as in `quoted`, stray bytes by their value. -/
def quotedBytes (bytes : ByteArray) : String :=
  "\"" ++ String.join ((Utf8.pieces bytes).map Quoted.escapePiece) ++ "\""

end HiToolchain
