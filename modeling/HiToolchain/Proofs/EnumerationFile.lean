import HiToolchain.Kinds.Enumeration
import HiToolchain.Proofs.FileWords

/-!
# The file of an enumeration

A generated file is read as its compiler reads it: as a type, a list of constants and a method.
-/

namespace HiToolchain.Kinds

/-! ### Enumerations -/

/-- A constant of a list, with its type and its value where they are given. -/
structure Constant where
  name : String
  given : Option (String × String)

/-- The declarations of a generated file: a type, constants, and a method with a switch. -/
structure File where
  package : String
  type : String
  base : String
  constants : List Constant
  receiver : String
  receiverType : String
  method : String
  result : String
  subject : String
  cases : List (String × ByteArray)
  otherwise : ByteArray

namespace File

open Word

/-- Constants up to the closing parenthesis. -/
def constants? : List Word → Option (List Constant × List Word)
  | sign ')' :: rest => some ([], rest)
  | name n :: sign ';' :: rest =>
    (constants? rest).map fun (cs, rest) => (⟨n, none⟩ :: cs, rest)
  | name n :: name type :: sign '=' :: name value :: sign ';' :: rest =>
    (constants? rest).map fun (cs, rest) => (⟨n, some (type, value)⟩ :: cs, rest)
  | _ => none

/-- Cases up to the closing brace, each with the text that it returns. -/
def cases? : List Word → Option (List (String × ByteArray) × List Word)
  | sign '\x7d' :: rest => some ([], rest)
  | keyword "case" :: name n :: sign ':' :: keyword "return" :: text b :: sign ';' :: rest =>
    (cases? rest).map fun (cs, rest) => ((n, b) :: cs, rest)
  | _ => none

def ofWords? : List Word → Option File
  | keyword "package" :: name package :: sign ';' :: keyword "type" :: name type :: name base ::
      sign ';' :: keyword "const" :: sign '(' :: rest =>
    match constants? rest with
    | some (constants, sign ';' :: keyword "func" :: sign '(' :: name receiver ::
        name receiverType :: sign ')' :: name method :: sign '(' :: sign ')' :: name result ::
        sign '\x7b' :: keyword "switch" :: name subject :: sign '\x7b' :: rest) =>
      match cases? rest with
      | some (cases, [sign ';', keyword "return", text otherwise, sign ';', sign '\x7d',
          sign ';']) =>
        some ⟨package, type, base, constants, receiver, receiverType, method, result, subject,
          cases, otherwise⟩
      | _ => none
    | _ => none
  | _ => none

/-- What a file declares. -/
def ofText? (file : String) : Option File :=
  (Word.ofText? file.toList).bind ofWords?

/-- The value of a constant, which counts up from the first one. -/
def value? (f : File) (name : String) : Option Nat :=
  (f.constants.map Constant.name).findIdx? (· = name)

/-- The text that the method returns. Its receiver hides a constant of the same name, and equals
itself. -/
def string (f : File) (v : Int) : ByteArray :=
  ((f.cases.find? fun c => c.1 = f.receiver ∨ (f.value? c.1).map Int.ofNat = some v).map
    Prod.snd).getD f.otherwise

/-- The names that a file declares. -/
def declared (f : File) : List String := f.type :: f.constants.map Constant.name

/-- What a compiler asks of a file: names are declared once and can be, the names of built-in types
and of the counter keep their meaning, and every name that is used is declared. -/
structure Compiles (f : File) : Prop where
  package : f.package ≠ "_"
  distinct : f.declared.Nodup
  usable : ∀ name ∈ f.declared, name ∉ ["_", "init"] ∧ (f.package = "main" → name ≠ "main")
  builtin : ∀ name ∈ ["int", "iota", "string"], name ∉ f.declared
  base : f.base = "int"
  counter : ∀ c ∈ f.constants.head?, c.given = some (f.type, "iota")
  repeated : ∀ c ∈ f.constants.tail, c.given = none
  receiver : f.receiverType = f.type
  method : f.method = "String" ∧ f.result = "string"
  subject : f.subject = f.receiver
  cases : ∀ c ∈ f.cases, c.1 = f.receiver ∨ c.1 ∈ f.constants.map Constant.name

/-- The file declares these kinds as the constants from zero on, and its method gives each of them
its text and every other number a word for what is unknown. -/
structure Lists (f : File) (kinds : List (String × ByteArray)) : Prop where
  compiles : f.Compiles
  constants : f.constants.map Constant.name = kinds.map Prod.fst
  value : ∀ (i : Nat) kind, kinds[i]? = some kind → f.value? kind.1 = some i
  text : ∀ (i : Nat) kind, kinds[i]? = some kind → f.string i = kind.2
  unknown : ∀ v : Int, (∀ i < kinds.length, v ≠ i) → f.string v = "unknown".toUTF8

end File

/-! ### The words of an enumeration -/

/-- The names of the file itself. -/
lemma isIdentifier_of_mem {s : String}
    (h : s ∈ ["NodeKind", "int", "iota", "k", "String", "string"]) : IsIdentifier s := by
  have hall : ∀ s ∈ ["NodeKind", "int", "iota", "k", "String", "string"],
      (!s.toList.isEmpty && s.toList.all fun c => c.toNat < 0x80 && c.isAlpha) = true ∧
        s ∉ keywords := by decide
  exact ⟨isName_of_alpha (hall s h).1, (hall s h).2⟩

/-- Every name can be written where a name is read. -/
def Usable (ds : List Declaration) : Prop := ∀ d ∈ ds, IsIdentifier d.name

/-- The words of the constants behind the first one. -/
def untypedWords (ds : List Declaration) : List Word :=
  ds.flatMap fun d => [.name d.name, .sign ';']

def constantWords : List Declaration → List Word
  | [] => [.sign ')', .sign ';']
  | first :: rest =>
    [.name first.name, .name "NodeKind", .sign '=', .name "iota", .sign ';'] ++
      (untypedWords rest ++ [.sign ')', .sign ';'])

lemma writes_untyped {ds : List Declaration} (h : Usable ds) :
    Writes (String.join (ds.map fun d => "\t" ++ d.name ++ "\n")).toList (untypedWords ds) := by
  refine writes_join fun d hd => ?_
  have hline : Spells ('\t' :: (d.name.toList ++ [])) [.name d.name] :=
    .blank (.inr rfl) (.identifier (h d hd) endsName_nil .nil)
  have hwrites := hline.writes
  rw [List.append_nil] at hwrites
  rw [String.toList_append, String.toList_append]
  exact hwrites

lemma writes_constants {ds : List Declaration} (h : Usable ds) :
    Writes (Enumeration.constants ds).toList
      ([.keyword "const", .sign '('] ++ constantWords ds) := by
  cases ds with
  | nil =>
    have hline : Spells ("const".toList ++ ' ' :: ['(', ')'])
        [.keyword "const", .sign '(', .sign ')'] :=
      .keyword (isName_of_alpha rfl) (by decide) (.sign rfl (.sign rfl .nil))
    exact hline.writes
  | cons first rest =>
    obtain ⟨hfirst, hrest⟩ := List.forall_mem_cons.mp h
    have hopen : Spells ("const".toList ++ ' ' :: ['(']) [.keyword "const", .sign '('] :=
      .keyword (isName_of_alpha rfl) (by decide) (.sign rfl .nil)
    have htyped : Spells ('\t' :: (first.name.toList ++ ' ' :: ("NodeKind".toList ++ ' ' :: '=' ::
        ' ' :: ("iota".toList ++ []))))
        [.name first.name, .name "NodeKind", .sign '=', .name "iota"] :=
      .blank (.inr rfl) (.spaced hfirst (.spaced (isIdentifier_of_mem (by simp)) (.sign rfl
        (.blank (.inl rfl) (.identifier (isIdentifier_of_mem (by simp)) endsName_nil .nil)))))
    have hclose : Spells [')'] [.sign ')'] := .sign rfl .nil
    have htext : (Enumeration.constants (first :: rest)).toList =
        ("const".toList ++ ' ' :: ['(']) ++ ['\n'] ++ (('\t' :: (first.name.toList ++ ' ' ::
          ("NodeKind".toList ++ ' ' :: '=' :: ' ' :: ("iota".toList ++ [])))) ++ ['\n'] ++
          ((String.join (rest.map fun d => "\t" ++ d.name ++ "\n")).toList ++
            ([')'] ++ ['\n']))) := by
      simp [Enumeration.constants, String.toList_append]
    rw [htext]
    exact hopen.writes.append (htyped.writes.append ((writes_untyped hrest).append hclose.writes))

def caseWords (ds : List Declaration) : List Word :=
  ds.flatMap fun d =>
    [.keyword "case", .name d.name, .sign ':'] ++ [.keyword "return", .text d.tag, .sign ';']

lemma writes_cases {ds : List Declaration} (h : Usable ds) :
    Writes (String.join (ds.map Enumeration.case)).toList (caseWords ds) := by
  refine writes_join fun d hd => ?_
  have hcase : Spells ('\t' :: ("case".toList ++ ' ' :: (d.name.toList ++ [':'])))
      [.keyword "case", .name d.name, .sign ':'] :=
    .blank (.inr rfl) (.keyword (isName_of_alpha rfl) (by decide)
      (.identifier (h d hd) (endsName_cons (by decide) (by decide) _) (.sign rfl .nil)))
  have hreturn : Spells ('\t' :: '\t' :: ("return".toList ++ ' ' :: (quotedBytes d.tag).toList))
      [.keyword "return", .text d.tag] :=
    .blank (.inr rfl) (.blank (.inr rfl) (.keyword (isName_of_alpha rfl) (by decide)
      (.quoted d.tag)))
  have htext : (Enumeration.case d).toList =
      ('\t' :: ("case".toList ++ ' ' :: (d.name.toList ++ [':']))) ++ ['\n'] ++
        (('\t' :: '\t' :: ("return".toList ++ ' ' :: (quotedBytes d.tag).toList)) ++ ['\n']) := by
    simp [Enumeration.case, String.toList_append]
  rw [htext]
  exact hcase.writes.append hreturn.writes

/-- The words of the method up to its cases. -/
def headWords : List Word :=
  [.keyword "func", .sign '(', .name "k", .name "NodeKind", .sign ')', .name "String", .sign '(',
    .sign ')', .name "string", .sign '\x7b', .keyword "switch", .name "k", .sign '\x7b']

/-- The words of the method behind its cases. -/
def endWords : List Word :=
  [.sign '\x7d', .sign ';', .keyword "return", .text "unknown".toUTF8, .sign ';', .sign '\x7d',
    .sign ';']

lemma writes_head : Writes "func (k NodeKind) String() string \x7b\n\tswitch k \x7b\n".toList
    headWords := by
  have hfunc : Spells ("func".toList ++ ' ' :: '(' :: ("k".toList ++ ' ' :: ("NodeKind".toList ++
      ')' :: ' ' :: ("String".toList ++ '(' :: ')' :: ' ' :: ("string".toList ++ ' ' ::
        ['\x7b'])))))
      [.keyword "func", .sign '(', .name "k", .name "NodeKind", .sign ')', .name "String",
        .sign '(', .sign ')', .name "string", .sign '\x7b'] :=
    .keyword (isName_of_alpha rfl) (by decide) (.sign rfl (.spaced (isIdentifier_of_mem (by simp))
      (.identifier (isIdentifier_of_mem (by simp)) (endsName_cons (by decide) (by decide) _)
        (.sign rfl (.blank (.inl rfl) (.identifier (isIdentifier_of_mem (by simp))
          (endsName_cons (by decide) (by decide) _) (.sign rfl (.sign rfl (.blank (.inl rfl)
            (.spaced (isIdentifier_of_mem (by simp)) (.sign rfl .nil)))))))))))
  have hswitch : Spells ('\t' :: ("switch".toList ++ ' ' :: ("k".toList ++ ' ' :: ['\x7b'])))
      [.keyword "switch", .name "k", .sign '\x7b'] :=
    .blank (.inr rfl) (.keyword (isName_of_alpha rfl) (by decide)
      (.spaced (isIdentifier_of_mem (by simp)) (.sign rfl .nil)))
  exact hfunc.writes.append hswitch.writes

lemma writes_end : Writes "\t\x7d\n\treturn \"unknown\"\n\x7d\n".toList endWords := by
  have hinner : Spells ('\t' :: ['\x7d']) [.sign '\x7d'] := .blank (.inr rfl) (.sign rfl .nil)
  have hunknown : Spells ('\t' :: ("return".toList ++ ' ' :: ('"' :: ("unknown".toList ++ ['"']) ++
      [])))
      [.keyword "return", .text ("unknown".toList.flatMap String.utf8EncodeChar).toByteArray] :=
    .blank (.inr rfl) (.keyword (isName_of_alpha rfl) (by decide)
      (.text (StringLiteral.denotes_plain (by simp)) .nil))
  have hword : ("unknown".toList.flatMap String.utf8EncodeChar).toByteArray = "unknown".toUTF8 := by
    rw [← utf8_eq_flatMap]
    exact Utf8.toByteArray_toList _
  rw [hword] at hunknown
  have houter : Spells ['\x7d'] [.sign '\x7d'] := .sign rfl .nil
  exact hinner.writes.append (hunknown.writes.append houter.writes)

lemma toList_append₃ (a b c : String) :
    (a ++ b ++ c).toList = a.toList ++ (b.toList ++ c.toList) := by
  rw [String.toList_append, String.toList_append, List.append_assoc]

lemma writes_method {ds : List Declaration} (h : Usable ds) :
    Writes (Enumeration.tagMethod ds).toList (headWords ++ (caseWords ds ++ endWords)) :=
  (writes_head.append ((writes_cases h).append writes_end)).of_eq (toList_append₃ _ _ _)

lemma writes_comment {c : List Char} (hc : '\n' ∉ c) : Writes ('/' :: '/' :: c ++ ['\n']) [] := by
  have hline : Word.ofLine? 0 ('/' :: '/' :: c) = some [] := by
    rw [Word.ofLine?, if_neg (by decide), if_pos ⟨rfl, rfl⟩]
  exact writes_line (by simpa using hc) hline

def headerWords (package : String) : List Word :=
  [.keyword "package", .name package, .sign ';', .keyword "type", .name "NodeKind", .name "int",
    .sign ';']

lemma writes_header {package : String} (hpackage : IsIdentifier package) :
    Writes ("// Code generated by adtGen. DO NOT EDIT.\n\npackage " ++ package ++
      "\n\ntype NodeKind int\n\n").toList (headerWords package) := by
  have hcomment : Writes ('/' :: '/' :: " Code generated by adtGen. DO NOT EDIT.".toList ++ ['\n'])
      [] := writes_comment (by simp)
  have hempty : Writes ['\n'] [] := Spells.nil.writes
  have hfront : Spells ("package".toList ++ ' ' :: (package.toList ++ []))
      [.keyword "package", .name package] :=
    .keyword (isName_of_alpha rfl) (by decide) (.identifier hpackage endsName_nil .nil)
  have htype : Spells ("type".toList ++ ' ' :: ("NodeKind".toList ++ ' ' :: ("int".toList ++ [])))
      [.keyword "type", .name "NodeKind", .name "int"] :=
    .keyword (isName_of_alpha rfl) (by decide) (.spaced (isIdentifier_of_mem (by simp))
      (.identifier (isIdentifier_of_mem (by simp)) endsName_nil .nil))
  have hwrites := hcomment.append (hempty.append (hfront.writes.append (hempty.append
    (htype.writes.append hempty))))
  have hfirst : "// Code generated by adtGen. DO NOT EDIT.\n\npackage ".toList =
      '/' :: '/' :: " Code generated by adtGen. DO NOT EDIT.".toList ++ ['\n'] ++ (['\n'] ++
        ("package".toList ++ [' '])) := by
    simp
  have hsecond : "\n\ntype NodeKind int\n\n".toList = ['\n'] ++ (['\n'] ++ (("type".toList ++
      ' ' :: ("NodeKind".toList ++ ' ' :: ("int".toList ++ []))) ++ ['\n'] ++ ['\n'])) := by
    simp
  -- The words of the package stand in both texts and between them, so the parts are put together
  -- anew before they are read.
  have hassoc (c p q t : List Char) :
      c ++ (['\n'] ++ (p ++ [' '])) ++ (q ++ (['\n'] ++ (['\n'] ++ (t ++ ['\n'] ++ ['\n'])))) =
        c ++ (['\n'] ++ (p ++ ' ' :: (q ++ []) ++ ['\n'] ++ (['\n'] ++
          (t ++ ['\n'] ++ ['\n'])))) := by
    simp
  have htext := (congrArg₂ (fun a b => a ++ (package.toList ++ b)) hfirst hsecond).trans
    (hassoc _ _ package.toList _)
  exact hwrites.of_eq ((toList_append₃ _ _ _).trans htext)

lemma toList_append₄ (a b c d : String) :
    (a ++ b ++ c ++ d).toList = a.toList ++ (b.toList ++ (c.toList ++ d.toList)) := by
  rw [String.toList_append, toList_append₃, List.append_assoc, List.append_assoc]

/-- The words of the whole file. -/
def fileWords (package : String) (ds : List Declaration) : List Word :=
  headerWords package ++ ([.keyword "const", .sign '('] ++ constantWords ds ++
    (headWords ++ (caseWords ds ++ endWords)))

lemma words_text {package : String} {ds : List Declaration} (hpackage : IsIdentifier package)
    (h : Usable ds) :
    Word.ofText? (Enumeration.text package ds).toList = some (fileWords package ds) := by
  have hempty : Writes "\n".toList [] := Spells.nil.writes
  have hwrites : Writes (Enumeration.text package ds).toList (fileWords package ds) :=
    ((writes_header hpackage).append ((writes_constants h).append (hempty.append
      (writes_method h)))).of_eq (toList_append₄ _ _ _ _)
  have hend : Word.ofText? [] = some [] := rfl
  have hall := hwrites []
  rwa [List.append_nil, hend, Option.map_some, List.append_nil] at hall

/-! ### The file that is read -/

/-- The file that is made for declarations. -/
def listing (package : String) (ds : List Declaration) : File where
  package := package
  type := "NodeKind"
  base := "int"
  constants := match ds with
    | [] => []
    | first :: rest =>
      ⟨first.name, some ("NodeKind", "iota")⟩ :: rest.map fun d => ⟨d.name, none⟩
  receiver := "k"
  receiverType := "NodeKind"
  method := "String"
  result := "string"
  subject := "k"
  cases := ds.map fun d => (d.name, d.tag)
  otherwise := "unknown".toUTF8

lemma constants?_words (ds : List Declaration) (rest : List Word) :
    File.constants? (constantWords ds ++ rest) =
      some ((listing "" ds).constants, .sign ';' :: rest) := by
  have huntyped (ds : List Declaration) :
      File.constants? (untypedWords ds ++ (.sign ')' :: .sign ';' :: rest)) =
        some (ds.map fun d => ⟨d.name, none⟩, .sign ';' :: rest) := by
    induction ds with
    | nil => rfl
    | cons d ds ih =>
      have hstep : File.constants? (untypedWords (d :: ds) ++ (.sign ')' :: .sign ';' :: rest)) =
          (File.constants? (untypedWords ds ++ (.sign ')' :: .sign ';' :: rest))).map
            fun (cs, rest) => (⟨d.name, none⟩ :: cs, rest) := rfl
      rw [hstep, ih]
      rfl
  cases ds with
  | nil => rfl
  | cons first ds =>
    have hstep : File.constants? (constantWords (first :: ds) ++ rest) =
        (File.constants? (untypedWords ds ++ (.sign ')' :: .sign ';' :: rest))).map
          fun (cs, rest) => (⟨first.name, some ("NodeKind", "iota")⟩ :: cs, rest) := by
      rw [constantWords, List.append_assoc, List.append_assoc]
      rfl
    rw [hstep, huntyped]
    rfl

lemma cases?_words (ds : List Declaration) (rest : List Word) :
    File.cases? (caseWords ds ++ .sign '\x7d' :: rest) =
      some (ds.map fun d => (d.name, d.tag), rest) := by
  induction ds with
  | nil => rfl
  | cons d ds ih =>
    have hstep : File.cases? (caseWords (d :: ds) ++ .sign '\x7d' :: rest) =
        (File.cases? (caseWords ds ++ .sign '\x7d' :: rest)).map
          fun (cs, rest) => ((d.name, d.tag) :: cs, rest) := rfl
    rw [hstep, ih]
    rfl

/-- The generated file is read as the listing of the declarations. -/
lemma file_text {package : String} {ds : List Declaration} (hpackage : IsIdentifier package)
    (h : Usable ds) : File.ofText? (Enumeration.text package ds) = some (listing package ds) := by
  have hconstants := constants?_words ds (headWords ++ (caseWords ds ++ endWords))
  have hcases := cases?_words ds endWords.tail
  have hend : caseWords ds ++ Word.sign '\x7d' :: endWords.tail = caseWords ds ++ endWords := rfl
  rw [hend] at hcases
  rw [File.ofText?, words_text hpackage h, Option.bind_some, fileWords, headerWords,
    List.append_assoc]
  simp only [List.cons_append, List.nil_append, File.ofWords?]
  rw [hconstants, headWords]
  simp only [List.cons_append, List.nil_append]
  rw [hcases]
  rfl

end HiToolchain.Kinds
