import HiToolchain.Proofs.Grammar
import Mathlib.Data.List.Chain

/-!
# Layouts of a program

A normal program can be written in many ways: its lexemes stand in order, with any run of blanks
and line endings before each of them and at the end, and only two numbers must be kept apart. The
tokens of such a text are the lexemes again, so parsing it yields the program back.
-/

namespace HiToolchain

/-- A character that may stand between lexemes; a carriage return is part of a line ending. -/
def isSeparator (c : Char) : Bool := isBlank c || c == '\r'

def Lexeme.spelling (x : Lexeme) : List Char :=
  match x.1 with
  | .number => x.2.toList
  | .string => '"' :: x.2.toList ++ ['"']
  | kind => kind.name.toList

/-- A number has digits, and a text holds nothing that ends it or that reading changes. -/
def Lexeme.isWritable (x : Lexeme) : Bool :=
  match x.1 with
  | .number => x.2 ≠ "" && x.2.toList.all isDigit
  | .string => x.2.toList.all fun c => c ≠ '"' && c ≠ '\r' && c ≠ endMark
  | _ => true

/-- `Layout previous xs chars`: the characters write the lexemes `xs` after one of the kind
`previous`, with separators before each of them and at the end. -/
inductive Layout : Option TokenKind → List Lexeme → List Char → Prop
  | last {previous : Option TokenKind} (gap : List Char) (hgap : ∀ ch ∈ gap, isSeparator ch) :
      Layout previous [] gap
  | lexeme {previous : Option TokenKind} {x : Lexeme} {xs : List Lexeme} {chars : List Char}
      (gap : List Char) (hgap : ∀ ch ∈ gap, isSeparator ch)
      (hapart : previous = some .number → x.1 = .number → gap ≠ [])
      (h : Layout (some x.1) xs chars) : Layout previous (x :: xs) (gap ++ (x.spelling ++ chars))

def Stmt.hasOperation : Stmt → Bool
  | print _ (.binary ..) | evaluate _ (.binary ..) => true
  | _ => false

/-! ### Logical characters of a layout -/

/-- The characters as they stand, each one wide. -/
def plain (chars : List Char) : List Glyph := chars.map (Glyph.mk · 1)

lemma map_char_plain (chars : List Char) : (plain chars).map Glyph.char = chars := by
  simp [plain, Function.comp_def]

lemma Glyph.ofChars_cons {c : Char} (hc : c ≠ '\r') (rest : List Char) :
    Glyph.ofChars (c :: rest) = ⟨c, 1⟩ :: Glyph.ofChars rest := by
  rw [Glyph.ofChars]
  · exact fun _ h _ => hc h
  · exact hc

lemma Glyph.ofChars_append {chars : List Char} (hchars : '\r' ∉ chars) (rest : List Char) :
    Glyph.ofChars (chars ++ rest) = plain chars ++ Glyph.ofChars rest := by
  induction chars with
  | nil => rfl
  | cons c chars ih =>
    rw [List.mem_cons, not_or] at hchars
    obtain ⟨hc, hchars⟩ := hchars
    rw [List.cons_append, Glyph.ofChars_cons (Ne.symm hc), ih hchars]
    rfl

lemma Glyph.head_ofChars (chars : List Char) :
    (Glyph.ofChars chars).head?.map Glyph.char =
      chars.head?.map fun c => if c = '\r' then '\n' else c := by
  fun_cases Glyph.ofChars chars <;> simp_all

/-- Separators become blanks. A line feed after them would join a carriage return before it. -/
lemma Glyph.ofChars_separators {gap : List Char} (rest : List Char)
    (hgap : ∀ ch ∈ gap, isSeparator ch) (hrest : rest.head? ≠ some '\n') :
    ∃ blanks : List Glyph, Glyph.ofChars (gap ++ rest) = blanks ++ Glyph.ofChars rest ∧
      ∀ g ∈ blanks, isBlank g.char := by
  fun_induction Glyph.ofChars gap with
  | case1 => exact ⟨[], rfl, fun g hg => nomatch hg⟩
  | case2 gap ih =>
    obtain ⟨-, hgap⟩ := List.forall_mem_cons.mp hgap
    obtain ⟨blanks, hblanks, hblank⟩ := ih (List.forall_mem_cons.mp hgap).2
    refine ⟨⟨'\n', 2⟩ :: blanks, ?_, List.forall_mem_cons.mpr ⟨rfl, hblank⟩⟩
    rw [List.cons_append, List.cons_append, Glyph.ofChars, hblanks, List.cons_append]
  | case3 gap hfeed ih =>
    obtain ⟨-, hgap⟩ := List.forall_mem_cons.mp hgap
    obtain ⟨blanks, hblanks, hblank⟩ := ih hgap
    refine ⟨⟨'\n', 1⟩ :: blanks, ?_, List.forall_mem_cons.mpr ⟨rfl, hblank⟩⟩
    rw [List.cons_append, Glyph.ofChars, hblanks, List.cons_append]
    intro after hafter
    -- the line feed would be the next separator or the first character after all of them
    cases gap with
    | nil => exact hrest (by rw [← List.nil_append rest, hafter]; rfl)
    | cons c gap =>
      obtain ⟨rfl, -⟩ := List.cons.inj hafter
      exact hfeed gap rfl
  | case4 c gap hreturn hfeed ih =>
    obtain ⟨hseparator, hgap⟩ := List.forall_mem_cons.mp hgap
    obtain ⟨blanks, hblanks, hblank⟩ := ih hgap
    have hc : c ≠ '\r' := fun hc => hfeed hc
    refine ⟨⟨c, 1⟩ :: blanks, ?_, List.forall_mem_cons.mpr ⟨?_, hblank⟩⟩
    · rw [List.cons_append, Glyph.ofChars_cons hc, hblanks, List.cons_append]
    · simpa [isSeparator, hc] using hseparator

/-! ### Scanning one lexeme -/

/-- The lexemes of normal programs that can be written. -/
inductive Lexeme.Proper : Lexeme → Prop
  | hi : Lexeme.Proper (.hi, "hi")
  | print : Lexeme.Proper (.print, "print")
  | string {text : String} (h : ∀ c ∈ text.toList, c ≠ '"' ∧ c ≠ '\r' ∧ c ≠ endMark) :
      Lexeme.Proper (.string, text)
  | number {digits : String} (hne : digits.toList ≠ []) (h : ∀ c ∈ digits.toList, isDigit c) :
      Lexeme.Proper (.number, digits)
  | operator {op : TokenKind} (h : op.isOperator) : Lexeme.Proper (op, "")

/-- What comes next does not prolong a lexeme of this kind. -/
def Ends (kind : TokenKind) (chars : List Char) : Prop :=
  ∀ c ∈ chars.head?, (kind = .number → isDigit c = false) ∧ (kind = .times → c ≠ '*')

/-- The scan yields the lexeme `x` and leaves `rest`. -/
def Cursor.Finds (s : Cursor.Scanned Token) (x : Lexeme) (rest : List Glyph) : Prop :=
  ∃ t, s.1 = .ok t ∧ t.lexeme = x ∧ s.2.place.rest = rest

section

variable {c : Cursor} {front rest : List Glyph}

lemma Cursor.read_front (n : Int) (hc : c.place.rest = front ++ rest)
    (hn : n = front.length) :
    (c.read n).1 = String.ofList (front.map Glyph.char) ∧ (c.read n).2.place.rest = rest := by
  rw [Cursor.read_fst, Cursor.read_place, Place.forward_rest, hc, hn, Int.toNat_natCast]
  refine ⟨?_, List.drop_left⟩
  rw [List.map_append, List.append_assoc, List.take_left' (List.length_map _)]

lemma Cursor.readWhile_front (keep : Char → Bool) (hc : c.place.rest = front ++ rest)
    (hfront : ∀ g ∈ front, keep g.char)
    (hrest : ∀ ch ∈ rest.head?.map Glyph.char, keep ch = false) :
    (c.readWhile keep).1 = String.ofList (front.map Glyph.char) ∧
      (c.readWhile keep).2.place.rest = rest := by
  have hrun : c.place.rest.takeWhile (fun g => keep g.char) = front := by
    rw [hc, List.takeWhile_append_of_pos hfront]
    cases rest with
    | nil => rw [List.takeWhile_nil, List.append_nil]
    | cons g rest =>
      have hg : keep g.char = false := hrest g.char rfl
      rw [List.takeWhile_cons, hg]
      exact List.append_nil _
  rw [Cursor.readWhile_fst, Cursor.readWhile_place, Place.forward_rest, hrun, hc]
  exact ⟨rfl, List.drop_left⟩

lemma Cursor.scanKeyword_finds (kind : TokenKind) (word : String)
    (hc : c.place.rest = plain word.toList ++ rest) :
    Cursor.Finds (c.scanKeyword kind word) (kind, word) rest := by
  have hlength : (word.length : Int) = (plain word.toList).length := by
    rw [plain, List.length_map, String.length_toList]
  obtain ⟨hgot, hrest⟩ := Cursor.read_front _ hc hlength
  rw [map_char_plain, String.ofList_toList] at hgot
  unfold Cursor.scanKeyword
  dsimp only
  rw [if_pos hgot]
  exact ⟨_, rfl, rfl, hrest⟩

lemma Cursor.scanString_finds {text : String} (htext : ∀ ch ∈ text.toList, ch ≠ '"' ∧ ch ≠ endMark)
    (hc : c.place.rest = plain ['"'] ++ (plain text.toList ++ (plain ['"'] ++ rest))) :
    Cursor.Finds c.scanString (.string, text) rest := by
  obtain ⟨-, hopened⟩ := Cursor.read_front 1 hc rfl
  obtain ⟨hvalue, hrun⟩ := Cursor.readWhile_front (fun ch => ch != '"' && ch != endMark) hopened
    (by simpa [plain] using htext) (by simp [plain])
  obtain ⟨hclosing, hend⟩ := Cursor.read_front 1 hrun rfl
  rw [map_char_plain] at hvalue hclosing
  rw [String.ofList_toList] at hvalue
  unfold Cursor.scanString
  dsimp only
  rw [if_pos (hclosing.trans rfl), hvalue]
  exact ⟨_, rfl, rfl, hend⟩

lemma Cursor.scanNumber_finds {digits : String} (hdigits : ∀ ch ∈ digits.toList, isDigit ch)
    (hc : c.place.rest = plain digits.toList ++ rest)
    (hrest : ∀ ch ∈ rest.head?.map Glyph.char, isDigit ch = false) :
    Cursor.Finds c.scanNumber (.number, digits) rest := by
  obtain ⟨hvalue, hend⟩ := Cursor.readWhile_front isDigit hc (by simpa [plain] using hdigits) hrest
  rw [map_char_plain, String.ofList_toList] at hvalue
  unfold Cursor.scanNumber
  dsimp only
  rw [hvalue]
  exact ⟨_, rfl, rfl, hend⟩

lemma Cursor.scanOperator_finds {op : TokenKind} {symbol : Char}
    (hc : c.place.rest = plain [symbol] ++ rest)
    (hrest : op = .times → ∀ ch ∈ rest.head?.map Glyph.char, ch ≠ '*') :
    Cursor.Finds (c.scanOperator op) (op, "") rest := by
  obtain ⟨-, hend⟩ := Cursor.read_front 1 hc rfl
  have hsingle : (op = .times && (c.read 1).2.place.next == '*') = false := by
    rw [Bool.and_eq_false_imp, decide_eq_true_eq]
    intro hop
    rw [Place.next, hend]
    cases rest with
    | nil => rfl
    | cons g rest => exact beq_false_of_ne (hrest hop g.char rfl)
  unfold Cursor.scanOperator
  dsimp only
  rw [hsingle]
  exact ⟨_, rfl, rfl, hend⟩

lemma Cursor.scanOperator_finds_power (hc : c.place.rest = plain ['*'] ++ (plain ['*'] ++ rest)) :
    Cursor.Finds (c.scanOperator .times) (.power, "") rest := by
  obtain ⟨-, hone⟩ := Cursor.read_front 1 hc rfl
  obtain ⟨-, htwo⟩ := Cursor.read_front 1 hone rfl
  have hdouble : (TokenKind.times = .times && (c.read 1).2.place.next == '*') = true := by
    rw [Place.next, hone]
    rfl
  unfold Cursor.scanOperator
  dsimp only
  rw [hdouble]
  exact ⟨_, rfl, rfl, htwo⟩

lemma Lexeme.spelling_operator {op : TokenKind} (h : op.isOperator) :
    Lexeme.spelling (op, "") = op.name.toList := by
  cases op with
  | string => cases h
  | number => cases h
  | _ => rfl

lemma symbol_of_isOperator {op : TokenKind} (h : op.isOperator) :
    op = .power ∨ ∃ symbol, op.name.toList = [symbol] ∧ operator? symbol = some op := by
  cases op with
  | plus => exact .inr ⟨'+', rfl, rfl⟩
  | minus => exact .inr ⟨'-', rfl, rfl⟩
  | times => exact .inr ⟨'*', rfl, rfl⟩
  | divide => exact .inr ⟨'/', rfl, rfl⟩
  | power => exact .inl rfl
  | _ => cases h

lemma Lexeme.Proper.return_notMem {x : Lexeme} (hx : x.Proper) : '\r' ∉ x.spelling := by
  cases hx with
  | hi => decide
  | print => decide
  | string h =>
    intro hmem
    simp only [Lexeme.spelling, List.cons_append, List.mem_cons, List.mem_append] at hmem
    obtain hmem | hmem | hmem | hmem := hmem
    · cases hmem
    · exact (h _ hmem).2.1 rfl
    · cases hmem
    · cases hmem
  | number hne h => exact fun hmem => nomatch h _ hmem
  | @operator op h =>
    rw [Lexeme.spelling_operator h]
    obtain rfl | ⟨symbol, hsymbol, hop⟩ := symbol_of_isOperator h
    · decide
    · rw [hsymbol, List.mem_singleton]
      rintro rfl
      cases hop

lemma Place.next_of_rest {p : Place} {ch : Char} {chars : List Char}
    (h : p.rest = plain (ch :: chars) ++ rest) : p.next = ch := by
  rw [Place.next, h]
  rfl

lemma Cursor.scanToken_of_digit (h : isDigit c.place.next) : c.scanToken = c.scanNumber := by
  have hother : ∀ ch, isDigit ch = false → (c.place.next == ch) = false := by
    intro ch hch
    refine beq_false_of_ne ?_
    rintro rfl
    rw [h] at hch
    cases hch
  unfold Cursor.scanToken
  simp [hother '"' rfl, hother 'h' rfl, hother 'p' rfl, h]

lemma Cursor.scanToken_of_operator {op : TokenKind} (h : operator? c.place.next = some op) :
    c.scanToken = c.scanOperator op := by
  unfold Cursor.scanToken
  dsimp only
  rw [h]
  generalize c.place.next = ch at h ⊢
  unfold operator? at h
  split at h <;> cases h <;> rfl

lemma Ends.ofChars {kind : TokenKind} {chars : List Char} (h : Ends kind chars) :
    ∀ ch ∈ (Glyph.ofChars chars).head?.map Glyph.char,
      (kind = .number → isDigit ch = false) ∧ (kind = .times → ch ≠ '*') := by
  intro ch hch
  rw [Glyph.head_ofChars] at hch
  obtain ⟨first, hfirst, rfl⟩ := Option.map_eq_some_iff.mp hch
  split
  · exact ⟨fun _ => rfl, fun _ => by decide⟩
  · exact h first hfirst

/-- A lexeme is scanned as far as it was written, if nothing prolongs it. -/
lemma Cursor.scanToken_finds {x : Lexeme} (hx : x.Proper) {chars : List Char}
    (hends : Ends x.1 chars) (hc : c.place.rest = Glyph.ofChars (x.spelling ++ chars)) :
    Cursor.Finds c.scanToken x (Glyph.ofChars chars) := by
  rw [Glyph.ofChars_append hx.return_notMem] at hc
  cases hx with
  | hi =>
    have hnext : c.place.next = 'h' := Place.next_of_rest hc
    unfold Cursor.scanToken
    rw [hnext]
    exact Cursor.scanKeyword_finds .hi "hi" hc
  | print =>
    have hnext : c.place.next = 'p' := Place.next_of_rest hc
    unfold Cursor.scanToken
    rw [hnext]
    exact Cursor.scanKeyword_finds .print "print" hc
  | string h =>
    have hnext : c.place.next = '"' := Place.next_of_rest hc
    unfold Cursor.scanToken
    rw [hnext]
    refine Cursor.scanString_finds (fun ch hch => ⟨(h ch hch).1, (h ch hch).2.2⟩) ?_
    rw [hc]
    simp [Lexeme.spelling, plain]
  | @number digits hne h =>
    obtain ⟨d, ds, hds⟩ := List.exists_cons_of_ne_nil hne
    have hnext : isDigit c.place.next := by
      rw [Lexeme.spelling, hds] at hc
      rw [Place.next_of_rest hc]
      exact h d (by rw [hds]; exact List.mem_cons_self)
    rw [Cursor.scanToken_of_digit hnext]
    exact Cursor.scanNumber_finds h hc fun ch hch => (hends.ofChars ch hch).1 rfl
  | @operator op h =>
    obtain rfl | ⟨symbol, hsymbol, hop⟩ := symbol_of_isOperator h
    · rw [Cursor.scanToken_of_operator (congrArg operator? (Place.next_of_rest hc))]
      exact Cursor.scanOperator_finds_power hc
    · rw [Lexeme.spelling_operator h, hsymbol] at hc
      rw [← Place.next_of_rest hc] at hop
      rw [Cursor.scanToken_of_operator hop]
      exact Cursor.scanOperator_finds hc fun htimes ch hch => (hends.ofChars ch hch).2 htimes

end

/-! ### Scanning a layout -/

/-- Only a number starts with a digit, and no lexeme starts with a separator. -/
lemma Lexeme.Proper.spelling_cons {x : Lexeme} (hx : x.Proper) :
    ∃ ch chars, x.spelling = ch :: chars ∧ isSeparator ch = false ∧
      (isDigit ch ↔ x.1 = .number) := by
  cases hx with
  | hi => exact ⟨'h', ['i'], rfl, rfl, by decide⟩
  | print => exact ⟨'p', "rint".toList, rfl, rfl, by decide⟩
  | @string text h => exact ⟨'"', text.toList ++ ['"'], rfl, rfl, nofun, nofun⟩
  | @number digits hne h =>
    obtain ⟨d, ds, hds⟩ := List.exists_cons_of_ne_nil hne
    have hd : isDigit d := h d (by rw [hds]; exact List.mem_cons_self)
    refine ⟨d, ds, hds, ?_, fun _ => rfl, fun _ => hd⟩
    rw [← Bool.not_eq_true]
    intro hseparator
    simp only [isSeparator, isBlank, Bool.or_eq_true, beq_iff_eq] at hseparator
    obtain ((rfl | rfl) | rfl) | rfl := hseparator <;> cases hd
  | @operator op h =>
    cases op with
    | plus => exact ⟨'+', [], rfl, rfl, by decide⟩
    | minus => exact ⟨'-', [], rfl, rfl, by decide⟩
    | times => exact ⟨'*', [], rfl, rfl, by decide⟩
    | divide => exact ⟨'/', [], rfl, rfl, by decide⟩
    | power => exact ⟨'*', ['*'], rfl, rfl, by decide⟩
    | _ => cases h

lemma Ends.of_separator {kind : TokenKind} {ch : Char} {chars : List Char}
    (h : isSeparator ch) : Ends kind (ch :: chars) := by
  intro first hfirst
  obtain rfl : ch = first := by simpa using hfirst
  simp only [isSeparator, isBlank, Bool.or_eq_true, beq_iff_eq] at h
  obtain ((rfl | rfl) | rfl) | rfl := h <;> exact ⟨fun _ => rfl, fun _ => by decide⟩

/-- What a layout has after a lexeme does not prolong it: numbers are kept apart, and a number
comes after an operator. -/
lemma Layout.ends {kind : TokenKind} {xs : List Lexeme} {chars : List Char}
    (h : Layout (some kind) xs chars) (hproper : ∀ x ∈ xs, x.Proper)
    (hoperand : kind.isOperator → ∀ x ∈ xs.head?, x.1 = .number) : Ends kind chars := by
  cases h with
  | last _ hgap =>
    cases chars with
    | nil => exact fun ch hch => nomatch hch
    | cons ch gap => exact .of_separator (hgap ch List.mem_cons_self)
  | @lexeme _ x xs chars gap hgap hapart h =>
    cases gap with
    | nil =>
      obtain ⟨ch, rest, hspelling, -, hdigit⟩ :=
        (hproper x List.mem_cons_self).spelling_cons
      intro first hfirst
      rw [hspelling] at hfirst
      obtain rfl : ch = first := by simpa using hfirst
      constructor
      · rintro rfl
        rw [← Bool.not_eq_true, hdigit]
        exact fun hnumber => hapart rfl hnumber rfl
      · rintro rfl rfl
        have hnumber : x.1 = .number := hoperand rfl x rfl
        cases hdigit.mpr hnumber
    | cons ch gap => exact .of_separator (hgap ch List.mem_cons_self)

lemma Cursor.nextToken_finds {c : Cursor} {x : Lexeme} {gap chars : List Char}
    (hgap : ∀ ch ∈ gap, isSeparator ch) (hx : x.Proper) (hends : Ends x.1 chars)
    (hc : c.place.rest = Glyph.ofChars (gap ++ (x.spelling ++ chars))) :
    Cursor.Finds c.nextToken x (Glyph.ofChars chars) := by
  obtain ⟨ch, rest, hspelling, hseparator, -⟩ := hx.spelling_cons
  have hfeed : (x.spelling ++ chars).head? ≠ some '\n' := by
    rw [hspelling]
    rintro ⟨⟩
    cases hseparator
  obtain ⟨blanks, hblanks, hblank⟩ := Glyph.ofChars_separators _ hgap hfeed
  rw [hblanks] at hc
  refine Cursor.scanToken_finds hx hends (Cursor.readWhile_front isBlank hc hblank ?_).2
  intro first hfirst
  rw [Glyph.head_ofChars, hspelling] at hfirst
  simp only [isSeparator, Bool.or_eq_false_iff, beq_eq_false_iff_ne] at hseparator
  obtain rfl : ch = first := by simpa [hseparator.2] using hfirst
  exact hseparator.1

lemma Cursor.nextToken_of_separators {c : Cursor} {gap : List Char}
    (hgap : ∀ ch ∈ gap, isSeparator ch) (hc : c.place.rest = Glyph.ofChars gap) :
    ∃ t, c.nextToken.1 = .ok t ∧ t.kind = .eof := by
  obtain ⟨blanks, hblanks, hblank⟩ := Glyph.ofChars_separators [] hgap nofun
  rw [List.append_nil] at hblanks
  rw [hblanks] at hc
  have hend := (Cursor.readWhile_front isBlank hc hblank nofun).2
  have hnext : c.skipBlanks.place.next = endMark := by
    rw [Cursor.skipBlanks, Place.next, hend]
    rfl
  unfold Cursor.nextToken Cursor.scanToken
  rw [hnext]
  exact ⟨_, rfl, rfl⟩

lemma Lexeme.Proper.kind_ne_eof {x : Lexeme} (hx : x.Proper) : x.1 ≠ .eof := by
  cases hx with
  | operator h =>
    rintro rfl
    cases h
  | _ => exact nofun

/-- The tokens of a layout are its lexemes. -/
lemma Layout.tokens {previous : Option TokenKind} {xs : List Lexeme} {chars : List Char}
    (h : Layout previous xs chars) (hproper : ∀ x ∈ xs, x.Proper)
    (hchain : xs.IsChain fun x y => x.1.isOperator → y.1 = .number) {c : Cursor}
    (hc : c.place.rest = Glyph.ofChars chars) :
    ∃ ts last, c.tokens.1 = (ts ++ [last], none) ∧ ts.map Token.lexeme = xs := by
  induction h generalizing c with
  | last gap hgap =>
    obtain ⟨t, ht, hkind⟩ := Cursor.nextToken_of_separators hgap hc
    exact ⟨[], t, Cursor.tokens_of_eof ht hkind, rfl⟩
  | @lexeme _ x xs chars gap hgap hapart h ih =>
    obtain ⟨hx, hxs⟩ := List.forall_mem_cons.mp hproper
    obtain ⟨hoperand, htail⟩ := List.isChain_cons.mp hchain
    have hends : Ends x.1 chars := h.ends hxs fun hop y hy => hoperand y hy hop
    obtain ⟨t, ht, rfl, hrest⟩ := Cursor.nextToken_finds hgap hx hends hc
    obtain ⟨ts, last, hts, hlexemes⟩ := ih hxs htail hrest
    refine ⟨t :: ts, last, ?_, by rw [List.map_cons, hlexemes]⟩
    rw [Cursor.tokens_of_token ht hx.kind_ne_eof, hts]
    rfl

/-! ### Lexemes of normal programs -/

lemma ExprKinds.isChain_append {es ks : List TokenKind} (he : ExprKinds es)
    (hks : ks.IsChain fun k l => k.isOperator → l = .number) :
    (es ++ ks).IsChain fun k l => k.isOperator → l = .number := by
  induction he with
  | number => exact List.isChain_cons.mpr ⟨nofun, hks⟩
  | @operation op es hop he ih =>
    have hnumber : ∀ k ∈ (es ++ ks).head?, k = .number := by
      cases he <;> simp
    exact List.isChain_cons.mpr ⟨nofun, List.isChain_cons.mpr ⟨fun k hk _ => hnumber k hk, ih⟩⟩

/-- A number comes after every operator. -/
lemma ProgramKinds.isChain {ks : List TokenKind} (h : ProgramKinds ks) :
    ks.IsChain fun k l => k.isOperator → l = .number := by
  induction h with
  | nil => exact .nil
  | greeting _ ih => exact List.isChain_cons.mpr ⟨nofun, List.isChain_cons.mpr ⟨nofun, ih⟩⟩
  | printing he _ ih => exact List.isChain_cons.mpr ⟨nofun, he.isChain_append ih⟩
  | evaluation he _ ih => exact he.isChain_append ih

lemma Program.isChain_lexemes {p : Program} (h : p.isNormal) :
    p.lexemes.IsChain fun x y => x.1.isOperator → y.1 = .number :=
  (List.isChain_map Prod.fst).mp (programKinds_of_isNormal (List.all_eq_true.mp h)).isChain

lemma Expr.proper_lexemes {e : Expr} (h : e.isNormal) (hwritable : ∀ x ∈ e.lexemes, x.isWritable) :
    ∀ x ∈ e.lexemes, x.Proper := by
  induction e with
  | number span digits =>
    have hdigits : digits ≠ "" ∧ ∀ ch ∈ digits.toList, isDigit ch := by
      simpa [Lexeme.isWritable] using hwritable _ List.mem_cons_self
    intro x hx
    obtain rfl := List.mem_singleton.mp hx
    exact .number (by simpa using hdigits.1) hdigits.2
  | binary span op left right ihleft ihright =>
    obtain ⟨hleft, hright, hoperation⟩ := isNormal_binary.mp h
    rw [Expr.lexemes] at hwritable ⊢
    rw [List.forall_mem_append, List.forall_mem_cons] at hwritable ⊢
    exact ⟨ihleft hleft hwritable.1, .operator hoperation.isOperator,
      ihright hright hwritable.2.2⟩
  | foreign span node => cases h

lemma Stmt.proper_lexemes {s : Stmt} (h : s.isNormal) (hwritable : ∀ x ∈ s.lexemes, x.isWritable) :
    ∀ x ∈ s.lexemes, x.Proper := by
  cases s with
  | greet span name =>
    rw [Stmt.lexemes, List.forall_mem_cons, List.forall_mem_singleton] at hwritable ⊢
    refine ⟨.hi, .string ?_⟩
    simpa [Lexeme.isWritable, and_assoc] using hwritable.2
  | print span value =>
    rw [Stmt.lexemes, List.forall_mem_cons] at hwritable ⊢
    exact ⟨.print, Expr.proper_lexemes h hwritable.2⟩
  | evaluate span value => exact Expr.proper_lexemes h hwritable
  | foreign span node => cases h

lemma Program.proper_lexemes {p : Program} (h : p.isNormal)
    (hwritable : ∀ x ∈ p.lexemes, x.isWritable) : ∀ x ∈ p.lexemes, x.Proper := by
  rw [Program.lexemes, List.forall_mem_flatMap] at hwritable ⊢
  exact fun s hs => Stmt.proper_lexemes (List.all_eq_true.mp h s hs) (hwritable s hs)

/-! ### The canonical text of a program without operations -/

lemma Stmt.layout_text {s : Stmt} (hnormal : s.isNormal) (hplain : s.hasOperation = false)
    {previous : Option TokenKind} {xs : List Lexeme} {gap chars : List Char}
    (hgap : ∀ ch ∈ gap, isSeparator ch) (hapart : previous = some .number → gap ≠ [])
    (h : ∀ kind, Layout (some kind) xs chars) :
    Layout previous (s.lexemes ++ xs) (gap ++ (s.text.toList ++ chars)) := by
  have hspace : ∀ ch ∈ [' '], isSeparator ch := by simp [isSeparator, isBlank]
  cases s with
  | greet span name =>
    have htext : (Stmt.greet span name).text.toList ++ chars =
        Lexeme.spelling (.hi, "hi") ++ ([' '] ++ (Lexeme.spelling (.string, name) ++ chars)) := by
      simp [Stmt.text, Lexeme.spelling, TokenKind.name]
    rw [htext]
    exact .lexeme gap hgap nofun (.lexeme [' '] hspace nofun (h _))
  | print span value =>
    cases value with
    | number span' digits =>
      have htext : (Stmt.print span (.number span' digits)).text.toList ++ chars =
          Lexeme.spelling (.print, "print") ++
            ([' '] ++ (Lexeme.spelling (.number, digits) ++ chars)) := by
        simp [Stmt.text, Expr.text, Lexeme.spelling, TokenKind.name]
      rw [htext]
      exact .lexeme gap hgap nofun (.lexeme [' '] hspace nofun (h _))
    | binary span' op left right => cases hplain
    | foreign span' node => cases hnormal
  | evaluate span value =>
    cases value with
    | number span' digits => exact .lexeme gap hgap (fun hnumber _ => hapart hnumber) (h _)
    | binary span' op left right => cases hplain
    | foreign span' node => cases hnormal
  | foreign span node => cases hnormal

lemma layout_lines {body : List Stmt} (hnormal : ∀ s ∈ body, s.isNormal)
    (hplain : ∀ s ∈ body, s.hasOperation = false) (previous : Option TokenKind) (gap : List Char)
    (hgap : ∀ ch ∈ gap, isSeparator ch) (hapart : previous = some .number → gap ≠ []) :
    Layout previous (body.flatMap Stmt.lexemes)
      (gap ++ ['\n'].intercalate (body.map fun s => s.text.toList)) := by
  induction body generalizing previous gap with
  | nil =>
    rw [List.map_nil, List.intercalate_nil, List.append_nil]
    exact .last gap hgap
  | cons s body ih =>
    obtain ⟨hs, hbody⟩ := List.forall_mem_cons.mp hnormal
    obtain ⟨hs', hbody'⟩ := List.forall_mem_cons.mp hplain
    rw [List.flatMap_cons]
    cases body with
    | nil =>
      have h := Stmt.layout_text hs hs' hgap hapart fun _ => .last [] (by simp)
      simpa using h
    | cons t body =>
      -- the line feed keeps a number at the end of the line apart from one on the next
      have hlines : ∀ kind, Layout (some kind) ((t :: body).flatMap Stmt.lexemes)
          (['\n'] ++ ['\n'].intercalate ((t :: body).map fun s => s.text.toList)) :=
        fun kind => ih hbody hbody' (some kind) ['\n'] (by simp [isSeparator, isBlank]) nofun
      have h := Stmt.layout_text hs hs' hgap hapart hlines
      simpa [List.intercalate_cons_cons] using h

lemma Program.layout_text {p : Program} (hnormal : p.isNormal)
    (hplain : ∀ s ∈ p.body, s.hasOperation = false) : Layout none p.lexemes p.text.toList := by
  have h := layout_lines (List.all_eq_true.mp hnormal) hplain none [] nofun nofun
  simpa [Program.lexemes, Program.text, Function.comp_def] using h

/-- Every layout of a normal program is parsed back to it, and so is the canonical text of one
without operations. -/
theorem parse_layout (p : Program) (file : String) (hnormal : p.isNormal)
    (hwritable : ∀ x ∈ p.lexemes, x.isWritable) :
    (∀ text : String, Layout none p.lexemes text.toList →
      ∃ q, Program.parse text file = .ok q ∧ q.bare = p.bare) ∧
    ((∀ s ∈ p.body, s.hasOperation = false) →
      ∃ q, Program.parse p.text file = .ok q ∧ q.bare = p.bare) := by
  have hlayout : ∀ text : String, Layout none p.lexemes text.toList →
      ∃ q, Program.parse text file = .ok q ∧ q.bare = p.bare := by
    intro text h
    have hrest : (Cursor.ofText text file).place.rest = Glyph.ofChars text.toList := rfl
    obtain ⟨ts, last, htokens, hlexemes⟩ :=
      h.tokens (p.proper_lexemes hnormal hwritable) (p.isChain_lexemes hnormal) hrest
    exact parse_readsBack htokens hnormal hlexemes.symm
  exact ⟨hlayout, fun hplain => hlayout p.text (Program.layout_text hnormal hplain)⟩

/-- Only the two numbers `4` and `5` are apart; the line endings differ. -/
theorem parse_layout_without_blanks :
    Layout none
      [(.hi, "hi"), (.string, "a b"), (.print, "print"), (.number, "2"), (.power, ""),
        (.number, "3"), (.minus, ""), (.number, "4"), (.number, "5")]
      "hi\"a b\"\r\n print2**3-4\r5\t".toList ∧
    ∃ q, Program.parse "hi\"a b\"\r\n print2**3-4\r5\t" "" = .ok q ∧
      q.bare = ⟨default, [.greet default "a b",
        .print default (.binary default .minus
          (.binary default .power (.number default "2") (.number default "3"))
          (.number default "4")),
        .evaluate default (.number default "5")]⟩ := by
  have h : Layout none
      [(.hi, "hi"), (.string, "a b"), (.print, "print"), (.number, "2"), (.power, ""),
        (.number, "3"), (.minus, ""), (.number, "4"), (.number, "5")]
      "hi\"a b\"\r\n print2**3-4\r5\t".toList :=
    .lexeme [] nofun nofun <| .lexeme [] nofun nofun <|
      .lexeme ['\r', '\n', ' '] (by simp [isSeparator, isBlank]) nofun <|
      .lexeme [] nofun nofun <| .lexeme [] nofun nofun <| .lexeme [] nofun nofun <|
      .lexeme [] nofun nofun <| .lexeme [] nofun nofun <|
      .lexeme ['\r'] (by simp [isSeparator]) nofun <|
      .last ['\t'] (by simp [isSeparator, isBlank])
  refine ⟨h, (parse_layout ⟨default, [.greet default "a b",
    .print default (.binary default .minus
      (.binary default .power (.number default "2") (.number default "3"))
      (.number default "4")),
    .evaluate default (.number default "5")]⟩ "" (by decide) (by decide)).1 _ h⟩

end HiToolchain
