import HiToolchain.Yaml.Input

/-!
YAML tokens. Besides the signs in the text there are tokens for the collections that indentation
opens and closes, and a key token before every key.
-/

namespace HiToolchain.Yaml

inductive TokenKind where
  | streamEnd
  | version (major minor : Nat)
  | tagHandle (handle prefixText : String)
  | documentStart
  | documentEnd
  | blockSequenceStart
  | blockMappingStart
  | blockEnd
  | flowSequenceStart
  | flowSequenceEnd
  | flowMappingStart
  | flowMappingEnd
  | flowEntry
  | blockEntry
  | key
  | value
  | aliasOf (name : String)
  | anchor (name : String)
  | tag (handle suffix : String)
  | scalar (text : String) (plain : Bool)
  deriving DecidableEq, Repr, Inhabited

/-- A token and the index of the line where it starts. -/
structure Token where
  kind : TokenKind
  line : Nat
  deriving DecidableEq, Repr, Inhabited

end HiToolchain.Yaml
