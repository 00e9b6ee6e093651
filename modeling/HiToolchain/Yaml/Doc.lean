import HiToolchain.Yaml.Scalar

/-!
Documents of strings, lists and mappings whose keys keep their order, and their text in block
style. The items of a list in a mapping stand at the indentation of its key.
-/

namespace HiToolchain.Yaml

inductive Doc where
  | scalar (text : String)
  | list (items : List Doc)
  | mapping (fields : List (String × Doc))
  deriving Repr, Inhabited

namespace Doc

def spaces (n : Nat) : String :=
  String.ofList (List.replicate n ' ')

mutual

/-- A field at the indentation of its mapping, without the blanks before its key. -/
def fieldText (indent : Nat) (key : String) : Doc → String
  | scalar s => key ++ ": " ++ scalarLine (indent + 2) (indent + key.length + 2) s
  | list [] => key ++ ": []\n"
  | list (item :: items) => key ++ ":\n" ++ itemsText indent (spaces indent) (item :: items)
  | mapping [] => key ++ ": \x7b\x7d\n"
  | mapping (field :: fields) =>
    key ++ ":\n" ++ fieldsText (indent + 2) (spaces (indent + 2)) (field :: fields)

/-- Fields, each on a line of its own; `lead` stands before the first. -/
def fieldsText (indent : Nat) (lead : String) : List (String × Doc) → String
  | [] => ""
  | (key, value) :: fields =>
    lead ++ fieldText indent key value ++ fieldsText indent (spaces indent) fields

/-- An item without the blanks and the dash before it. -/
def itemText (indent : Nat) : Doc → String
  | scalar s => scalarLine (indent + 2) (indent + 2) s
  | list [] => "[]\n"
  | list (item :: items) => itemsText (indent + 2) "" (item :: items)
  | mapping [] => "\x7b\x7d\n"
  | mapping (field :: fields) => fieldsText (indent + 2) "" (field :: fields)

/-- Items, each after a dash; `lead` stands before the first. -/
def itemsText (indent : Nat) (lead : String) : List Doc → String
  | [] => ""
  | item :: items =>
    lead ++ "- " ++ itemText indent item ++ itemsText indent (spaces indent) items

end

/-- The text of a document. -/
def text : Doc → String
  | scalar s => scalarLine 2 0 s
  | list [] => "[]\n"
  | list (item :: items) => itemsText 0 "" (item :: items)
  | mapping [] => "\x7b\x7d\n"
  | mapping (field :: fields) => fieldsText 0 "" (field :: fields)

end Doc

end HiToolchain.Yaml
