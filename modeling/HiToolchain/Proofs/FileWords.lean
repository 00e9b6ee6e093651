import HiToolchain.Kinds.Enumeration
import HiToolchain.Proofs.KindTokens

/-!
# Words of a generated file

A generated file is read line by line into words, with a semicolon after a line that can end a
statement. What a writer puts on its lines is read back as the words that it wrote, whatever
follows.
-/

namespace HiToolchain.Kinds

/-! ### Words of a file -/

/-- A word of a generated file. -/
inductive Word where
  | keyword (s : String)
  | name (s : String)
  | text (bytes : ByteArray)
  | sign (c : Char)

namespace Word

def ofName (s : String) : Word := if s ∈ keywords then .keyword s else .name s

/-- The word of a lexeme. Numbers, characters and raw text have no place in an enumeration. -/
def ofLexeme? (form : Form) (chars : List Char) : Option Word :=
  match form, chars with
  | .name, _ => some (ofName (String.ofList chars))
  | .quoted, _ => (StringLiteral.value? (String.ofList chars).toUTF8).map .text
  | .symbol, [c] => some (.sign c)
  | _, _ => none

/-- Whether a statement may end behind a word. -/
def endsStatement : Word → Bool
  | keyword s => s ∈ ["break", "continue", "fallthrough", "return"]
  | name _ => true
  | text _ => true
  | sign c => c ∈ [')', ']', '\x7d']

/-- The words of a line. `skip` characters of a word are still to be passed over. -/
def ofLine? : (skip : Nat) → List Char → Option (List Word)
  | _, [] => some []
  | skip + 1, _ :: rest => ofLine? skip rest
  | 0, c :: rest =>
    if isGap c then ofLine? 0 rest
    else if c = '/' ∧ rest.head? = some '/' then some []
    else match lexeme c rest with
      | (form, ⟨length, none⟩) => do
        let word ← ofLexeme? form ((c :: rest).take length)
        return word :: (← ofLine? (length - 1) rest)
      | _ => none

/-- The words of a line with the semicolon that its end may stand for. -/
def ended (words : List Word) : List Word :=
  words ++ if words.getLast?.any endsStatement then [.sign ';'] else []

def ofText? (chars : List Char) : Option (List Word) :=
  ((chars.splitOn '\n').mapM (ofLine? 0)).map (·.flatMap ended)

end Word

/-! ### Reading what is written -/

/-- A line that is made of blanks and words. -/
inductive Spells : List Char → List Word → Prop
  | nil : Spells [] []
  | blank {c : Char} {cs : List Char} {ws : List Word} (hc : c = ' ' ∨ c = '\t')
      (h : Spells cs ws) : Spells (c :: cs) ws
  | name {s : String} {cs : List Char} {ws : List Word} (hs : IsName s) (hcs : EndsName cs)
      (h : Spells cs ws) : Spells (s.toList ++ cs) (.ofName s :: ws)
  | text {w cs : List Char} {bytes : List UInt8} {ws : List Word}
      (hw : StringLiteral.Denotes w bytes) (h : Spells cs ws) :
      Spells ('"' :: (w ++ ['"']) ++ cs) (.text bytes.toByteArray :: ws)
  | sign {c : Char} {cs : List Char} {ws : List Word} (hc : isSign c) (h : Spells cs ws) :
      Spells (c :: cs) (.sign c :: ws)

lemma ofLine?_skip (front rest : List Char) :
    Word.ofLine? front.length (front ++ rest) = Word.ofLine? 0 rest := by
  induction front with
  | nil => rfl
  | cons c front ih => exact ih

lemma ofLine?_blank {c : Char} (hc : isGap c) (rest : List Char) :
    Word.ofLine? 0 (c :: rest) = Word.ofLine? 0 rest := by
  rw [Word.ofLine?, if_pos hc]

lemma ofLine?_lexeme {w rest : List Char} {form : Form} {b : TokenSort × ByteArray} {word : Word}
    (h : Lexes form w rest b) (hword : Word.ofLexeme? form w = some word) :
    Word.ofLine? 0 (w ++ rest) = (Word.ofLine? 0 rest).map (word :: ·) := by
  obtain ⟨c, w, rfl, hgap, hslash, hlexeme, -⟩ := h
  have htake : (c :: (w ++ rest)).take (c :: w).length = c :: w := List.take_left
  have hskip : Word.ofLine? ((c :: w).length - 1) (w ++ rest) = Word.ofLine? 0 rest :=
    ofLine?_skip w rest
  rw [List.cons_append, Word.ofLine?, if_neg (by rw [hgap]; decide), if_neg (by simp [hslash]),
    hlexeme]
  simp only [Extent.clean, htake, hword, hskip]
  cases Word.ofLine? 0 rest <;> rfl

lemma Spells.ofLine? {cs : List Char} {ws : List Word} (h : Spells cs ws) :
    Word.ofLine? 0 cs = some ws := by
  induction h with
  | nil => rfl
  | blank hc _ ih => rw [ofLine?_blank (by obtain rfl | rfl := hc <;> rfl), ih]
  | @name s cs ws hs hcs _ ih =>
    have hword : Word.ofLexeme? .name s.toList = some (.ofName s) := by
      rw [Word.ofLexeme?, String.ofList_toList]
    rw [ofLine?_lexeme (lexes_name hs hcs) hword, ih]
    rfl
  | @text w cs bytes ws hw _ ih =>
    have hword : Word.ofLexeme? .quoted ('"' :: (w ++ ['"'])) = some (.text bytes.toByteArray) := by
      rw [Word.ofLexeme?, hw.value?]
      rfl
    rw [ofLine?_lexeme (lexes_quoted hw cs) hword, ih]
    rfl
  | @sign c cs ws hc _ ih =>
    exact (ofLine?_lexeme (w := [c]) (lexes_sign hc cs) rfl).trans (by rw [ih]; rfl)

/-- What is written reads as these words, before anything else that can be read. -/
def Writes (cs : List Char) (ws : List Word) : Prop :=
  ∀ rest, Word.ofText? (cs ++ rest) = (Word.ofText? rest).map (ws ++ ·)

lemma Writes.nil : Writes [] [] := by
  intro rest
  cases h : Word.ofText? rest <;> simp [h]

lemma Writes.append {cs cs' : List Char} {ws ws' : List Word} (h : Writes cs ws)
    (h' : Writes cs' ws') : Writes (cs ++ cs') (ws ++ ws') := by
  intro rest
  rw [List.append_assoc, h, h', Option.map_map]
  exact Option.map_congr fun more _ => (List.append_assoc ..).symm

lemma Writes.of_eq {cs cs' : List Char} {ws : List Word} (h : Writes cs ws) (heq : cs' = cs) :
    Writes cs' ws := heq ▸ h

lemma Spells.not_mem_line {cs : List Char} {ws : List Word} (h : Spells cs ws) : '\n' ∉ cs := by
  have hpart : isNamePart '\n' = false := isNamePart_of_ascii (by decide)
  induction h with
  | nil => exact List.not_mem_nil
  | blank hc _ ih =>
    refine List.not_mem_cons_of_ne_of_not_mem ?_ ih
    obtain rfl | rfl := hc <;> decide
  | @name s cs ws hs _ _ ih =>
    intro hmem
    obtain hmem | hmem := List.mem_append.mp hmem
    · have hname := hs.forall_isNamePart _ hmem
      rw [hpart] at hname
      cases hname
    · exact ih hmem
  | text hw _ ih =>
    have hline := hw.not_mem_line
    simp [hline, ih]
  | @sign c cs ws hc _ ih =>
    refine List.not_mem_cons_of_ne_of_not_mem ?_ ih
    rintro rfl
    cases hc

lemma writes_line {c : List Char} {ws : List Word} (hline : '\n' ∉ c)
    (h : Word.ofLine? 0 c = some ws) : Writes (c ++ ['\n']) (Word.ended ws) := by
  intro rest
  have hsplit : (c ++ ['\n'] ++ rest).splitOn '\n' = c :: rest.splitOn '\n' := by
    rw [List.append_assoc]
    exact List.splitOn_append_cons_self_of_not_mem hline rest
  rw [Word.ofText?, hsplit, List.mapM_cons, h, Word.ofText?]
  cases (rest.splitOn '\n').mapM (Word.ofLine? 0) <;> rfl

lemma Spells.writes {cs : List Char} {ws : List Word} (h : Spells cs ws) :
    Writes (cs ++ ['\n']) (Word.ended ws) :=
  writes_line h.not_mem_line h.ofLine?

/-- A name that is no keyword. -/
structure IsIdentifier (s : String) : Prop where
  name : IsName s
  free : s ∉ keywords

lemma Spells.keyword {s : String} {cs : List Char} {ws : List Word} (hs : IsName s)
    (hkeyword : s ∈ keywords) (h : Spells cs ws) :
    Spells (s.toList ++ ' ' :: cs) (.keyword s :: ws) := by
  have hword : Word.ofName s = .keyword s := if_pos hkeyword
  rw [← hword]
  exact .name hs (endsName_cons (by decide) (by decide) _) (.blank (.inl rfl) h)

lemma Spells.identifier {s : String} {cs : List Char} {ws : List Word} (hs : IsIdentifier s)
    (hcs : EndsName cs) (h : Spells cs ws) : Spells (s.toList ++ cs) (.name s :: ws) := by
  have hword : Word.ofName s = .name s := if_neg hs.free
  rw [← hword]
  exact .name hs.name hcs h

lemma Spells.spaced {s : String} {cs : List Char} {ws : List Word} (hs : IsIdentifier s)
    (h : Spells cs ws) : Spells (s.toList ++ ' ' :: cs) (.name s :: ws) :=
  .identifier hs (endsName_cons (by decide) (by decide) _) (.blank (.inl rfl) h)

lemma Spells.quoted (b : ByteArray) : Spells (quotedBytes b).toList [.text b] := by
  obtain ⟨w, hw, hdenotes⟩ := StringLiteral.denotes_quotedBytes b
  have htext := Spells.text hdenotes .nil
  rwa [List.append_nil, ← hw, Utf8.toByteArray_toList] at htext

lemma writes_join {α : Type} {l : List α} {f : α → String} {g : α → List Word}
    (h : ∀ a ∈ l, Writes (f a).toList (g a)) :
    Writes (String.join (l.map f)).toList (l.flatMap g) := by
  induction l with
  | nil => exact .nil
  | cons a l ih =>
    obtain ⟨ha, hl⟩ := List.forall_mem_cons.mp h
    rw [List.map_cons, String.join_cons, String.toList_append, List.flatMap_cons]
    exact ha.append (ih hl)

end HiToolchain.Kinds
