/-!
What can be wrong with YAML text, and the wording of it.
-/

namespace HiToolchain.Yaml

inductive Problem where
  | controlCharacter
  | noToken
  | valueNotAllowed
  | keyNotAllowed
  | entryNotAllowed
  | missingColon
  | anchorName
  | tagStart
  | tagUri
  | tagEnd
  | tagClosing
  | uriOctet
  | uriLeadingOctet
  | uriTrailingOctet
  | undefinedHandle
  | directiveName
  | directiveNameEnd
  | unknownDirective
  | directiveEnd
  | versionSeparator
  | versionNumber
  | versionLength
  | tagDirectiveBlank
  | tagDirectiveEnd
  | duplicateVersion
  | incompatibleVersion
  | duplicateTagDirective
  | indentationZero
  | blockHeaderEnd
  | blockTab
  | plainTab
  | documentIndicator
  | endOfStream
  | unknownEscape
  | hexDigits
  | invalidCodePoint
  | documentStart
  | nodeContent
  | sequenceDash
  | mappingKey
  | flowSequenceEnd
  | flowMappingEnd
  | unknownAnchor (name : String)
  | selfContaining (name : String)
  | mergeValue
  | mismatch (found value wanted : String)
  | base64
  deriving DecidableEq, Repr

namespace Problem

def text : Problem → String
  | controlCharacter => "control characters are not allowed"
  | noToken => "found character that cannot start any token"
  | valueNotAllowed => "mapping values are not allowed in this context"
  | keyNotAllowed => "mapping keys are not allowed in this context"
  | entryNotAllowed => "block sequence entries are not allowed in this context"
  | missingColon => "could not find expected ':'"
  | anchorName => "did not find expected alphabetic or numeric character"
  | tagStart => "did not find expected '!'"
  | tagUri => "did not find expected tag URI"
  | tagEnd => "did not find expected whitespace or line break"
  | tagClosing => "did not find the expected '>'"
  | uriOctet => "did not find URI escaped octet"
  | uriLeadingOctet => "found an incorrect leading UTF-8 octet"
  | uriTrailingOctet => "found an incorrect trailing UTF-8 octet"
  | undefinedHandle => "found undefined tag handle"
  | directiveName => "could not find expected directive name"
  | directiveNameEnd => "found unexpected non-alphabetical character"
  | unknownDirective => "found unknown directive name"
  | directiveEnd => "did not find expected comment or line break"
  | versionSeparator => "did not find expected digit or '.' character"
  | versionNumber => "did not find expected version number"
  | versionLength => "found extremely long version number"
  | tagDirectiveBlank => "did not find expected whitespace"
  | tagDirectiveEnd => "did not find expected whitespace or line break"
  | duplicateVersion => "found duplicate %YAML directive"
  | incompatibleVersion => "found incompatible YAML document"
  | duplicateTagDirective => "found duplicate %TAG directive"
  | indentationZero => "found an indentation indicator equal to 0"
  | blockHeaderEnd => "did not find expected comment or line break"
  | blockTab => "found a tab character where an indentation space is expected"
  | plainTab => "found a tab character that violates indentation"
  | documentIndicator => "found unexpected document indicator"
  | endOfStream => "found unexpected end of stream"
  | unknownEscape => "found unknown escape character"
  | hexDigits => "did not find expected hexdecimal number"
  | invalidCodePoint => "found invalid Unicode character escape code"
  | documentStart => "did not find expected <document start>"
  | nodeContent => "did not find expected node content"
  | sequenceDash => "did not find expected '-' indicator"
  | mappingKey => "did not find expected key"
  | flowSequenceEnd => "did not find expected ',' or ']'"
  | flowMappingEnd => "did not find expected ',' or '\x7d'"
  | unknownAnchor name => "unknown anchor '" ++ name ++ "' referenced"
  | selfContaining name => "anchor '" ++ name ++ "' value contains itself"
  | mergeValue => "map merge requires map or sequence of maps as the value"
  | mismatch found value wanted =>
    "cannot decode " ++ found ++ " `" ++ value ++ "` as a " ++ wanted
  | base64 => "!!binary value contains invalid base64 data"

end Problem

/-- A problem and the line it is reported on, zero for none. -/
structure Fault where
  problem : Problem
  line : Nat
  deriving DecidableEq, Repr

namespace Fault

/-- A problem with the text itself, found in the line with the given index. On the first line it
is reported without a number. -/
def inText (problem : Problem) (line : Nat) : Fault :=
  ⟨problem, if line = 0 then 0 else line + 1⟩

/-- A problem with the arrangement of tokens, reported by the index of the line. -/
def inStructure (problem : Problem) (line : Nat) : Fault :=
  ⟨problem, line⟩

/-- A problem without a place. -/
def general (problem : Problem) : Fault :=
  ⟨problem, 0⟩

def message (f : Fault) : String :=
  let place := if f.line = 0 then "" else "line " ++ toString f.line ++ ": "
  "yaml: " ++ place ++ f.problem.text

end Fault

end HiToolchain.Yaml
