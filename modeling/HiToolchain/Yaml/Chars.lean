import HiToolchain.Text.Digits
import HiToolchain.Text.Hex

/-!
Character classes of YAML text.
-/

namespace HiToolchain.Yaml

/-- Characters that end a line. -/
def isBreak (c : Char) : Bool :=
  c == '\n' || c == '\r' || c.toNat == 0x85 || c.toNat == 0x2028 || c.toNat == 0x2029

def isBlank (c : Char) : Bool :=
  c == ' ' || c == '\t'

/-- Characters that may stand in a text without an escape. -/
def isPlainChar (c : Char) : Bool :=
  let n := c.toNat
  n == 0x0a || (0x20 ≤ n && n ≤ 0x7e) || (0xa0 ≤ n && n ≤ 0xd7ff)
    || (0xe000 ≤ n && n ≤ 0xfffd && n != 0xfeff)

/-- Characters that have to be escaped. -/
def isSpecial (c : Char) : Bool := !isPlainChar c

end HiToolchain.Yaml
