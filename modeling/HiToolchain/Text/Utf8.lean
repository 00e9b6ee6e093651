/-!
Bytes read as UTF-8 text. A byte that starts no well-formed sequence is kept as a stray byte,
and reading goes on at the next one.
-/

namespace HiToolchain.Utf8

/-- A character, or a byte that belongs to no well-formed sequence. -/
inductive Piece where
  | char (c : Char)
  | stray (byte : UInt8)
  deriving DecidableEq, Repr

/-- Stands for a byte that belongs to no well-formed sequence. -/
def replacement : Char := '\uFFFD'

namespace Piece

/-- The character shown for a piece. -/
def shown : Piece → Char
  | .char c => c
  | .stray _ => replacement

def bytes : Piece → ByteArray
  | .char c => c.toString.toUTF8
  | .stray b => ⟨#[b]⟩

end Piece

/-- The pieces of the bytes from index `i` on. -/
def piecesFrom (bytes : ByteArray) (i : Nat) : List Piece :=
  if i < bytes.size then
    match bytes.utf8DecodeChar? i with
    | some c => .char c :: piecesFrom bytes (i + c.utf8Size)
    | none =>
      match bytes[i]? with
      | some b => .stray b :: piecesFrom bytes (i + 1)
      | none => []
  else []
termination_by bytes.size - i
decreasing_by
  · have := c.utf8Size_pos
    omega
  · omega

def pieces (bytes : ByteArray) : List Piece :=
  piecesFrom bytes 0

/-- The bytes of pieces, one after the other. -/
def join (pieces : List Piece) : ByteArray :=
  pieces.foldl (fun bytes p => bytes ++ p.bytes) .empty

def decode (bytes : ByteArray) : String :=
  String.ofList ((pieces bytes).map Piece.shown)

def encode (text : String) : ByteArray :=
  text.toUTF8

end HiToolchain.Utf8
