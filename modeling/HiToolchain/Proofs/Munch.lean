import HiToolchain.Proofs.Layout
import HiToolchain.Proofs.LogicalText

/-!
# Scanning by characters alone

What a scan finds and how far it reads depends on the logical characters to come and on nothing
else. `munch` says what that is without a cursor: positions are put in afterwards. A scan finds a
lexeme exactly where the characters spell one that the next character does not prolong.
-/

namespace HiToolchain

/-- The logical characters to come. -/
def Place.chars (p : Place) : List Char := p.rest.map Glyph.char

/-- What a scan comes to: a lexeme or the cause of a fault, and how many characters it reads. -/
structure Munch where
  outcome : Except LexCause Lexeme
  length : Nat

namespace Munch

def keyword (kind : TokenKind) (word : String) (chars : List Char) : Munch where
  outcome :=
    if (chars ++ [endMark]).take word.length = word.toList then .ok (kind, word)
    else .error (.misspelt word)
  length := word.length

/-- The text after the quote that the characters start with. -/
def quoted (chars : List Char) : List Char :=
  chars.tail.takeWhile fun ch => ch != '"' && ch != endMark

def string (chars : List Char) : Munch where
  outcome :=
    if (chars.drop ((quoted chars).length + 1)).head? = some '"' then
      .ok (.string, String.ofList (quoted chars))
    else .error .unterminatedString
  length := (quoted chars).length + 2

def number (chars : List Char) : Munch where
  outcome := .ok (.number, String.ofList (chars.takeWhile isDigit))
  length := (chars.takeWhile isDigit).length

def operator (op : TokenKind) (chars : List Char) : Munch :=
  if op = .times ∧ chars.tail.head? = some '*' then ⟨.ok (.power, ""), 2⟩ else ⟨.ok (op, ""), 1⟩

/-- The tokens and faults with the positions that they have at a place. -/
def placed (file : String) (p : Place) (m : Munch) : Except LexFault Token :=
  match m.outcome with
  | .ok x => .ok ⟨x.1, x.2, ⟨p.pos, (p.forward m.length).pos⟩⟩
  | .error cause =>
    .error ⟨file, (p.forward m.length).pos.line, (p.forward m.length).pos.column, cause⟩

end Munch

/-- What is scanned where no blanks stand in front. -/
def munch (chars : List Char) : Munch :=
  let ch := chars.headD endMark
  if ch == '"' then .string chars
  else if ch == 'h' then .keyword .hi "hi" chars
  else if ch == 'p' then .keyword .print "print" chars
  else if isDigit ch then .number chars
  else if ch == endMark then ⟨.ok (.eof, ""), 0⟩
  else match operator? ch with
    | some op => .operator op chars
    | none => ⟨.error .strayCharacter, 0⟩

/-! ### A cursor scans what there is to munch -/

/-- The scan from `c` has the outcome `m` and reads as far as `m` says. -/
structure Cursor.Munches (c : Cursor) (s : Cursor.Scanned Token) (m : Munch) : Prop where
  outcome : s.1 = m.placed c.file c.place
  place : s.2.place = c.place.forward m.length

lemma Place.next_eq (p : Place) : p.next = p.chars.headD endMark := by
  unfold Place.next Place.chars
  cases p.rest <;> rfl

@[simp] lemma Place.chars_forward (n : Nat) (p : Place) : (p.forward n).chars = p.chars.drop n := by
  rw [Place.chars, Place.forward_rest, List.map_drop, Place.chars]

lemma Place.takeWhile_chars (keep : Char → Bool) (p : Place) :
    (p.rest.takeWhile fun g => keep g.char).map Glyph.char = p.chars.takeWhile keep := by
  rw [Place.chars, List.takeWhile_map]
  rfl

lemma Place.length_takeWhile (keep : Char → Bool) (p : Place) :
    (p.rest.takeWhile fun g => keep g.char).length = (p.chars.takeWhile keep).length := by
  rw [← Place.takeWhile_chars, List.length_map]

section

variable (c : Cursor)

lemma Cursor.scanKeyword_munches (kind : TokenKind) (word : String) :
    c.Munches (c.scanKeyword kind word) (.keyword kind word c.place.chars) := by
  have hgot : (c.read word.length).1 = word ↔
      (c.place.chars ++ [endMark]).take word.length = word.toList := by
    rw [Cursor.read_fst, Int.toNat_natCast, ← String.toList_inj, String.toList_ofList, Place.chars]
  have hplace : (c.read word.length).2.place = c.place.forward word.length :=
    c.read_place word.length
  unfold Cursor.scanKeyword
  dsimp only
  by_cases h : (c.read word.length).1 = word
  · rw [if_pos h]
    refine ⟨?_, hplace⟩
    simp only [Munch.placed, Munch.keyword, if_pos (hgot.mp h), Cursor.pos, hplace]
  · rw [if_neg h]
    refine ⟨?_, hplace⟩
    simp only [Munch.placed, Munch.keyword, if_neg (mt hgot.mpr h), Cursor.lexFault, Cursor.pos,
      hplace]
    rfl

/-- The next character is a quote if reading it shows one. -/
lemma Cursor.read_quote : (c.read 1).1 = "\"" ↔ c.place.chars.head? = some '"' := by
  have hone : (c.read 1).1 = String.ofList ((c.place.chars ++ [endMark]).take 1) := c.read_fst 1
  rw [hone, ← String.toList_inj, String.toList_ofList]
  cases c.place.chars with
  | nil => exact ⟨nofun, nofun⟩
  | cons ch chars => simp

lemma Cursor.scanString_munches : c.Munches c.scanString (.string c.place.chars) := by
  let keep : Char → Bool := fun ch => ch != '"' && ch != endMark
  let opened := (c.read 1).2
  let d := (opened.readWhile keep).2
  have hopened : opened.place = c.place.forward 1 := c.read_place 1
  have hchars : opened.place.chars = c.place.chars.tail := by
    rw [hopened, Place.chars_forward, List.drop_one]
  have hvalue : (opened.readWhile keep).1 = String.ofList (Munch.quoted c.place.chars) := by
    rw [Cursor.readWhile_fst, Place.takeWhile_chars, hchars, Munch.quoted]
  have hd : d.place = c.place.forward ((Munch.quoted c.place.chars).length + 1) := by
    rw [Cursor.readWhile_place, Place.length_takeWhile, hchars, hopened, Nat.add_comm,
      Place.forward_add, Munch.quoted]
  have he : (d.read 1).2.place = c.place.forward ((Munch.quoted c.place.chars).length + 2) := by
    rw [Cursor.read_place, hd, ← Place.forward_add]
    rfl
  have hclosing := d.read_quote
  rw [hd, Place.chars_forward] at hclosing
  unfold Cursor.scanString
  dsimp only
  by_cases h : (d.read 1).1 = "\""
  · rw [if_pos h]
    refine ⟨?_, he⟩
    simp only [Munch.placed, Munch.string, if_pos (hclosing.mp h), Cursor.pos]
    rw [hvalue, he]
  · rw [if_neg h]
    refine ⟨?_, he⟩
    simp only [Munch.placed, Munch.string, if_neg (mt hclosing.mpr h), Cursor.lexFault, Cursor.pos]
    rw [he]
    rfl

lemma Cursor.scanNumber_munches : c.Munches c.scanNumber (.number c.place.chars) := by
  have hplace : (c.readWhile isDigit).2.place =
      c.place.forward (c.place.chars.takeWhile isDigit).length := by
    rw [Cursor.readWhile_place, Place.length_takeWhile]
  refine ⟨?_, hplace⟩
  simp only [Cursor.scanNumber, Munch.placed, Munch.number, Cursor.pos]
  rw [hplace, Cursor.readWhile_fst, Place.takeWhile_chars]

lemma Cursor.scanOperator_munches (op : TokenKind) :
    c.Munches (c.scanOperator op) (.operator op c.place.chars) := by
  have hone : (c.read 1).2.place = c.place.forward 1 := c.read_place 1
  have htwo : ((c.read 1).2.read 1).2.place = c.place.forward 2 := by
    rw [Cursor.read_place, hone, ← Place.forward_add]
    rfl
  have hstars : (op = .times && (c.read 1).2.place.next == '*') = true ↔
      op = .times ∧ c.place.chars.tail.head? = some '*' := by
    rw [Bool.and_eq_true, decide_eq_true_eq, hone, Place.next_eq, Place.chars_forward,
      List.drop_one, beq_iff_eq]
    cases c.place.chars.tail with
    | nil => simp [endMark]
    | cons ch chars => simp
  unfold Cursor.scanOperator Munch.operator
  dsimp only
  by_cases h : op = .times ∧ c.place.chars.tail.head? = some '*'
  · rw [if_pos (hstars.mpr h), if_pos h]
    refine ⟨?_, htwo⟩
    simp only [Munch.placed, Cursor.pos, htwo]
  · rw [if_neg (mt hstars.mp h), if_neg h]
    refine ⟨?_, hone⟩
    simp only [Munch.placed, Cursor.pos, hone]

lemma Cursor.scanToken_munches : c.Munches c.scanToken (munch c.place.chars) := by
  unfold Cursor.scanToken munch
  rw [Place.next_eq]
  dsimp only
  split_ifs
  · exact c.scanString_munches
  · exact c.scanKeyword_munches _ _
  · exact c.scanKeyword_munches _ _
  · exact c.scanNumber_munches
  · exact ⟨rfl, rfl⟩
  · cases operator? (c.place.chars.headD endMark) with
    | some op => exact c.scanOperator_munches op
    | none => exact ⟨rfl, rfl⟩

lemma Cursor.skipBlanks_place :
    c.skipBlanks.place = c.place.forward (c.place.chars.takeWhile isBlank).length := by
  rw [Cursor.skipBlanks, Cursor.readWhile_place, Place.length_takeWhile]

end

/-- What comes next is a gap, and then what is not blank. -/
lemma gap_split (next : List Char) : ∃ gap chars, next = gap ++ chars ∧
    (∀ ch ∈ gap, isBlank ch) ∧ (gap ++ chars).takeWhile isBlank = gap := by
  have hsplit : next.takeWhile isBlank ++ next.dropWhile isBlank = next :=
    List.takeWhile_append_dropWhile
  refine ⟨next.takeWhile isBlank, next.dropWhile isBlank, hsplit.symm, ?_, by rw [hsplit]⟩
  intro ch hch
  exact List.mem_takeWhile_imp hch

/-- One token, told from the index where its gap starts. -/
lemma Cursor.nextToken_at {text : String} {c : Cursor} {k : Nat} {gap chars : List Char}
    (hc : c.place = (Place.ofText text).forward k)
    (htext : (uniform text.toList).drop k = gap ++ chars)
    (hgap : (gap ++ chars).takeWhile isBlank = gap) :
    c.nextToken.1 = (munch chars).placed c.file ((Place.ofText text).forward (k + gap.length)) ∧
      c.nextToken.2.place =
        (Place.ofText text).forward (k + gap.length + (munch chars).length) := by
  have hchars : c.place.chars = gap ++ chars := by
    rw [hc, Place.chars, map_char_forward_ofText, htext]
  have hskip : c.skipBlanks.place = (Place.ofText text).forward (k + gap.length) := by
    rw [Cursor.skipBlanks_place, hchars, hgap, hc, ← Place.forward_add]
  have hrest : c.skipBlanks.place.chars = chars := by
    rw [Cursor.skipBlanks_place, Place.chars_forward, hchars, hgap, List.drop_left]
  obtain ⟨houtcome, hplace⟩ := c.skipBlanks.scanToken_munches
  rw [hrest, hskip] at houtcome hplace
  exact ⟨houtcome, by rw [Place.forward_add]; exact hplace⟩

/-! ### Lexemes are munched as they are spelled -/

/-- The lexemes of the language with the values that go with them. -/
inductive Lexeme.Formed : Lexeme → Prop
  | hi : Lexeme.Formed (.hi, "hi")
  | print : Lexeme.Formed (.print, "print")
  | string {text : String} (h : ∀ ch ∈ text.toList, ch ≠ '"' ∧ ch ≠ endMark) :
      Lexeme.Formed (.string, text)
  | number {digits : String} (hne : digits.toList ≠ []) (h : ∀ ch ∈ digits.toList, isDigit ch) :
      Lexeme.Formed (.number, digits)
  | operator {op : TokenKind} (h : op.isOperator) : Lexeme.Formed (op, "")

lemma takeWhile_append_of_head {keep : Char → Bool} {front rest : List Char}
    (hfront : ∀ ch ∈ front, keep ch) (hrest : ∀ ch ∈ rest.head?, keep ch = false) :
    (front ++ rest).takeWhile keep = front := by
  rw [List.takeWhile_append_of_pos hfront]
  cases rest with
  | nil => rw [List.takeWhile_nil, List.append_nil]
  | cons ch rest =>
    have hch : keep ch = false := hrest ch rfl
    rw [List.takeWhile_cons, hch]
    exact List.append_nil front

lemma munch_of_digit {ch : Char} {chars : List Char} (h : isDigit ch) :
    munch (ch :: chars) = .number (ch :: chars) := by
  have hother : ∀ other, isDigit other = false → (ch == other) = false := by
    intro other hfalse
    refine beq_false_of_ne ?_
    rintro rfl
    rw [h] at hfalse
    cases hfalse
  simp [munch, hother '"' rfl, hother 'h' rfl, hother 'p' rfl, h]

lemma munch_of_operator {ch : Char} {op : TokenKind} (h : operator? ch = some op)
    (chars : List Char) : munch (ch :: chars) = .operator op (ch :: chars) := by
  unfold operator? at h
  split at h <;> cases h <;> rfl

lemma munch_spelling {x : Lexeme} (hx : x.Formed) {rest : List Char} (hends : Ends x.1 rest) :
    munch (x.spelling ++ rest) = ⟨.ok x, x.spelling.length⟩ := by
  cases hx with
  | hi => rfl
  | print => rfl
  | @string text h =>
    have hquoted : Munch.quoted (Lexeme.spelling (.string, text) ++ rest) = text.toList := by
      have hspelling : (Lexeme.spelling (.string, text) ++ rest).tail =
          text.toList ++ '"' :: rest := by simp [Lexeme.spelling]
      rw [Munch.quoted, hspelling]
      exact takeWhile_append_of_head (by simpa using h) (by simp)
    have hmunch : munch (Lexeme.spelling (.string, text) ++ rest) =
        .string (Lexeme.spelling (.string, text) ++ rest) := rfl
    rw [hmunch, Munch.string, hquoted]
    simp [Lexeme.spelling]
  | @number digits hne h =>
    obtain ⟨d, ds, hds⟩ := List.exists_cons_of_ne_nil hne
    have hrun : (digits.toList ++ rest).takeWhile isDigit = digits.toList :=
      takeWhile_append_of_head h fun ch hch => (hends ch hch).1 rfl
    have hmunch : munch (digits.toList ++ rest) = .number (digits.toList ++ rest) := by
      rw [hds]
      exact munch_of_digit (h d (by rw [hds]; exact List.mem_cons_self))
    change munch (digits.toList ++ rest) = ⟨.ok (.number, digits), digits.toList.length⟩
    rw [hmunch, Munch.number, hrun, String.ofList_toList]
  | @operator op h =>
    rw [Lexeme.spelling_operator h]
    obtain rfl | ⟨symbol, hsymbol, hop⟩ := symbol_of_isOperator h
    · rfl
    · rw [hsymbol]
      change munch (symbol :: rest) = _
      rw [munch_of_operator hop, Munch.operator, if_neg]
      · rfl
      · rintro ⟨rfl, hstar⟩
        exact (hends '*' hstar).2 rfl rfl

lemma munch_end {chars : List Char} (h : ∀ ch ∈ chars.head?, ch = endMark) :
    munch chars = ⟨.ok (.eof, ""), 0⟩ := by
  cases chars with
  | nil => rfl
  | cons ch chars =>
    obtain rfl := h ch rfl
    rfl

/-! ### What is munched is a lexeme -/

/-- A lexeme at the front of the characters that is as long as it can be. -/
def Leading (x : Lexeme) (chars : List Char) : Prop :=
  x.Formed ∧ ∃ rest, chars = x.spelling ++ rest ∧ Ends x.1 rest

lemma Ends.of_kind (kind : TokenKind) (hnumber : kind ≠ .number) (htimes : kind ≠ .times)
    (chars : List Char) : Ends kind chars :=
  fun _ _ => ⟨fun h => (hnumber h).elim, fun h => (htimes h).elim⟩

lemma keyword_front {word chars : List Char} (hmark : endMark ∉ word)
    (h : (chars ++ [endMark]).take word.length = word) : ∃ rest, chars = word ++ rest := by
  by_cases hlength : word.length ≤ chars.length
  · obtain ⟨rest, hrest⟩ := List.take_prefix word.length chars
    rw [List.take_append_of_le_length hlength] at h
    rw [h] at hrest
    exact ⟨rest, hrest.symm⟩
  · rw [List.take_of_length_le (by simp; omega)] at h
    rw [← h] at hmark
    simp at hmark

section

variable {chars : List Char} {x : Lexeme}

lemma keyword_leading {kind : TokenKind} {word : String}
    (h : (Munch.keyword kind word chars).outcome = .ok x) (hword : Lexeme.Formed (kind, word))
    (hspelling : Lexeme.spelling (kind, word) = word.toList) (hmark : endMark ∉ word.toList)
    (hnumber : kind ≠ .number) (htimes : kind ≠ .times) : Leading x chars := by
  rw [Munch.keyword] at h
  split at h
  · next htake =>
    cases h
    obtain ⟨rest, hrest⟩ := keyword_front hmark (by rwa [String.length_toList])
    exact ⟨hword, rest, by rw [hspelling, hrest], .of_kind kind hnumber htimes rest⟩
  · cases h

lemma string_leading (h : (Munch.string ('"' :: chars)).outcome = .ok x) :
    Leading x ('"' :: chars) := by
  rw [Munch.string] at h
  split at h
  · next hclosing =>
    cases h
    obtain ⟨rest, hrest⟩ := List.head?_eq_some_iff.mp hclosing
    refine ⟨.string ?_, rest, ?_, Ends.of_kind .string (by decide) (by decide) rest⟩
    · intro ch hch
      rw [String.toList_ofList] at hch
      simpa using List.mem_takeWhile_imp hch
    · have hsplit : chars = Munch.quoted ('"' :: chars) ++ '"' :: rest := by
        rw [← hrest, List.drop_succ_cons]
        exact (List.prefix_iff_eq_append.mp (List.takeWhile_prefix _)).symm
      simpa [Lexeme.spelling] using hsplit
  · cases h

lemma number_leading {ch : Char} (hdigit : isDigit ch)
    (h : (Munch.number (ch :: chars)).outcome = .ok x) : Leading x (ch :: chars) := by
  cases h
  refine ⟨.number ?_ ?_, (ch :: chars).dropWhile isDigit, ?_, ?_⟩
  · simp [hdigit]
  · intro d hd
    rw [String.toList_ofList] at hd
    exact List.mem_takeWhile_imp hd
  · simp [Lexeme.spelling]
  · intro d hd
    have hstop := List.head?_dropWhile_not isDigit (ch :: chars)
    rw [hd] at hstop
    refine ⟨fun _ => hstop, ?_⟩
    intro htimes
    cases htimes

lemma operator_leading {ch : Char} {op : TokenKind} (hop : operator? ch = some op)
    (h : (Munch.operator op (ch :: chars)).outcome = .ok x) : Leading x (ch :: chars) := by
  have hsymbol : op.isOperator ∧ op.name.toList = [ch] := by
    unfold operator? at hop
    split at hop <;> cases hop <;> exact ⟨rfl, rfl⟩
  obtain ⟨hoperator, hname⟩ := hsymbol
  unfold Munch.operator at h
  split at h
  · next hstars =>
    cases h
    obtain ⟨rfl, hstar⟩ := hstars
    obtain ⟨rest, rfl⟩ := List.head?_eq_some_iff.mp hstar
    obtain rfl : '*' = ch := by simpa [TokenKind.name] using hname
    exact ⟨.operator rfl, rest, rfl, Ends.of_kind .power (by decide) (by decide) rest⟩
  · next hsingle =>
    cases h
    refine ⟨.operator hoperator, chars, by rw [Lexeme.spelling_operator hoperator, hname]; rfl, ?_⟩
    intro next hnext
    constructor
    · rintro rfl
      cases hoperator
    · rintro rfl rfl
      exact hsingle ⟨rfl, hnext⟩

/-- What is munched leads the characters, or they are at the end of the text. -/
lemma munch_cases (h : (munch chars).outcome = .ok x) :
    Leading x chars ∨ x = (.eof, "") ∧ ∀ ch ∈ chars.head?, ch = endMark := by
  cases chars with
  | nil =>
    cases h
    exact .inr ⟨rfl, nofun⟩
  | cons ch chars =>
    unfold munch at h
    simp only [List.headD_cons, beq_iff_eq] at h
    split_ifs at h with hquote hhi hprint hdigit hend
    · subst hquote
      exact .inl (string_leading h)
    · exact .inl (keyword_leading h .hi rfl (by decide) (by decide) (by decide))
    · exact .inl (keyword_leading h .print rfl (by decide) (by decide) (by decide))
    · exact .inl (number_leading hdigit h)
    · cases h
      exact .inr ⟨rfl, by simp [hend]⟩
    · cases hop : operator? ch with
      | some op =>
        rw [hop] at h
        exact .inl (operator_leading hop h)
      | none =>
        rw [hop] at h
        cases h

end

end HiToolchain
