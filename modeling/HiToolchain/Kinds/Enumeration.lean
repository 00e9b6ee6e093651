import HiToolchain.Kinds.Declaration

/-!
The source text of an enumeration of kinds: a type, one constant for each kind and a method that
gives a kind its tag.
-/

namespace HiToolchain.Kinds

namespace Enumeration

/-- The constants count up from the first one, which alone names its type. -/
def constants : List Declaration → String
  | [] => "const ()\n"
  | first :: rest =>
    "const (\n\t" ++ first.name ++ " NodeKind = iota\n"
      ++ String.join (rest.map fun d => "\t" ++ d.name ++ "\n") ++ ")\n"

def case (d : Declaration) : String :=
  "\tcase " ++ d.name ++ ":\n\t\treturn " ++ quotedBytes d.tag ++ "\n"

/-- The method that gives a kind its tag, and a word for every other number. -/
def tagMethod (ds : List Declaration) : String :=
  "func (k NodeKind) String() string \x7b\n\tswitch k \x7b\n" ++ String.join (ds.map case)
    ++ "\t\x7d\n\treturn \"unknown\"\n\x7d\n"

/-- The whole file. -/
def text (package : String) (ds : List Declaration) : String :=
  "// Code generated by adtGen. DO NOT EDIT.\n\npackage " ++ package
    ++ "\n\ntype NodeKind int\n\n" ++ constants ds ++ "\n" ++ tagMethod ds

end Enumeration

/-- Why there is no file. -/
inductive GenerateFault where
  | unread (fault : Fault)
  | unformatted

namespace GenerateFault

/-- The words of the formatter are left out. -/
def message : GenerateFault → String
  | unread f => f.message
  | unformatted => "error while formatting source"

end GenerateFault

/-- The words that name nothing. -/
def keywords : List String :=
  ["break", "case", "chan", "const", "continue", "default", "defer", "else", "fallthrough", "for",
    "func", "go", "goto", "if", "import", "interface", "map", "package", "range", "return",
    "select", "struct", "switch", "type", "var"]

/-- The enumeration that a text declares. Where a keyword stands for a name the text of the file is
not formatted, and a complaint takes its place. -/
def generate (package text : String) : Except GenerateFault String := do
  let ds ← (Declaration.parse text).mapError .unread
  if (package :: ds.map Declaration.name).any (· ∈ keywords) then throw .unformatted
  return Enumeration.text package ds

end HiToolchain.Kinds
