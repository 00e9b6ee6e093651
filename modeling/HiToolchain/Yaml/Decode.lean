import HiToolchain.Text.Base64
import HiToolchain.Text.Utf8
import HiToolchain.Yaml.Node
import HiToolchain.Yaml.Resolve

/-!
Values of scalar nodes. A scalar of any type can be taken as its text, null as none; a tag has to
agree with the text.
-/

namespace HiToolchain.Yaml

/-- What the tags of the standard types start with. -/
def standardPrefix : String := "tag:yaml.org,2002:"

/-- Standard tags are shown by two exclamation marks. -/
def shortTag (tag : String) : String :=
  if standardPrefix.toList.isPrefixOf tag.toList then
    "!!" ++ String.ofList (tag.toList.drop standardPrefix.length)
  else tag

/-- The type that a tag asks for. -/
def ScalarType.ofTag? (tag : String) : Option ScalarType :=
  if shortTag tag = tag then none
  else [ScalarType.null, .bool, .int, .float, .timestamp, .string].find? (·.tag == shortTag tag)

/-- Whether a number without a sign is small enough for a signed word. -/
def isSignedInt (cs : List Char) : Bool :=
  let (sign, digits) := splitSign cs
  (prefixedValue? digits).any (fitsWord (some (sign.getD false)))

/-- A scalar's tag and its text; null has none. -/
structure ScalarValue where
  tag : String
  text : Option String
  deriving DecidableEq, Repr

/-- The value of a text under a tag for a standard type. -/
def taggedValue (wanted : ScalarType) (text : String) : Except Fault ScalarValue :=
  let found := if wanted = .string then .string else resolveWith (wanted == .timestamp) text
  let widened := wanted = .float && found = .int && isSignedInt (withoutUnderscores text.toList)
  if found = wanted || widened then
    .ok ⟨wanted.tag, if wanted = .null then none else some text⟩
  else .error (.general (.mismatch found.tag text wanted.tag))

/-- The value of a scalar node. -/
def scalarValue (tag : String) (implicit : Bool) (text : String) : Except Fault ScalarValue :=
  if tag.isEmpty then
    if implicit then
      let t := resolve text
      .ok ⟨t.tag, if t = .null then none else some text⟩
    else .ok ⟨ScalarType.string.tag, some text⟩
  else match ScalarType.ofTag? tag with
    | some wanted => taggedValue wanted text
    | none =>
      if tag = standardPrefix ++ "binary" then
        match Base64.decode? text with
        | some bytes => .ok ⟨tag, some (Utf8.decode bytes)⟩
        | none => .error (.general .base64)
      else .ok ⟨tag, some text⟩

/-- A part of a document that does not fit what it is read into. -/
inductive Mismatch where
  | unfit (line : Nat) (tag : String) (shown : Option String) (target : String)
  | unknownField (line : Nat) (name target : String)
  | repeatedField (line : Nat) (name target : String)
  deriving DecidableEq, Repr

/-- Texts of more than ten bytes are shown by their first seven. -/
def abbreviate (text : String) : String :=
  if text.utf8ByteSize ≤ 10 then text else Utf8.decode (text.toUTF8.extract 0 7) ++ "..."

namespace Mismatch

/-- A node that does not fit: its own tag is shown if it has one, and its text unless it is a
collection. -/
def ofNode (info : NodeInfo) (tag text target : String) : Mismatch :=
  let tag := if info.tag.isEmpty then tag else shortTag info.tag
  let shown := if tag = "!!seq" || tag = "!!map" then none else some (abbreviate text)
  .unfit info.line tag shown target

/-- Lines are shown from one on. -/
def text : Mismatch → String
  | unfit line tag shown target =>
    let value := match shown with
      | some s => " `" ++ s ++ "`"
      | none => ""
    "line " ++ toString (line + 1) ++ ": cannot unmarshal " ++ tag ++ value ++ " into " ++ target
  | unknownField line name target =>
    "line " ++ toString (line + 1) ++ ": field " ++ name ++ " not found in type " ++ target
  | repeatedField line name target =>
    "line " ++ toString (line + 1) ++ ": field " ++ name ++ " already set in type " ++ target

end Mismatch

/-- The text of a node, or the reason why it has none. -/
def Node.string : Node → Except Fault (Except Mismatch String)
  | scalar info implicit text => do
    let v ← scalarValue info.tag implicit text
    return .ok (v.text.getD "")
  | sequence info _ => return .error (.ofNode info "!!seq" "" "string")
  | mapping info _ => return .error (.ofNode info "!!map" "" "string")
  | aliasOf _ _ target => target.string
  | enclosing info isMapping =>
    return .error (.ofNode info (if isMapping then "!!map" else "!!seq") "" "string")

/-- Whether a key asks for the fields of other mappings. -/
def Node.isMerge : Node → Bool
  | scalar info implicit text =>
    text == "<<" && (implicit || info.tag == standardPrefix ++ "merge")
  | _ => false

/-- The line where a key stands. -/
def Node.line : Node → Nat
  | scalar info .. | sequence info _ | mapping info _ | enclosing info _ => info.line
  | aliasOf line .. => line

end HiToolchain.Yaml
