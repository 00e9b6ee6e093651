import HiToolchain.Proofs.Munch

/-!
# The tokens of a text are its lexemes

A text is read without a fault exactly when it can be divided into lexemes and gaps between them,
each lexeme as long as it can be. There is one such division, and it fixes the tokens with their
positions: what the span of a token covers is the spelling of its lexeme.
-/

namespace HiToolchain

/-- A lexeme with the gap before it. -/
abbrev Piece := List Char × Lexeme

/-- The text starts with the pieces, and `rest` is what follows them. -/
inductive Division : List Char → List Piece → List Char → Prop
  | nil {rest : List Char} : Division rest [] rest
  | cons {gap text rest : List Char} {x : Lexeme} {pieces : List Piece}
      (hgap : ∀ ch ∈ gap, isBlank ch) (hx : x.Formed) (hends : Ends x.1 text)
      (h : Division text pieces rest) :
      Division (gap ++ (x.spelling ++ text)) ((gap, x) :: pieces) rest

/-- The text is the pieces, a last gap, and what comes after: nothing, or an end mark and more. -/
structure Divides (text : List Char) (pieces : List Piece) (gap after : List Char) : Prop where
  division : Division text pieces (gap ++ after)
  blank : ∀ ch ∈ gap, isBlank ch
  ended : ∀ ch ∈ after.head?, ch = endMark

def endToken (raw : List Char) (k : Nat) : Token := ⟨.eof, "", .point (.ofIndex raw k)⟩

/-- The tokens of pieces that start at index `k` of the text, and the end of the text after the
last gap if it is reached. -/
def located (raw : List Char) : Nat → List Piece → Option (List Char) → List Token
  | k, [], last => (last.map fun gap => endToken raw (k + gap.length)).toList
  | k, (gap, x) :: pieces, last =>
    let start := k + gap.length
    let stop := start + x.spelling.length
    ⟨x.1, x.2, ⟨.ofIndex raw start, .ofIndex raw stop⟩⟩ :: located raw stop pieces last

/-- The raw text from the character after the start of a span to its last one. -/
def Span.cut (raw : List Char) (s : Span) : List Char :=
  (raw.take (s.stop.offset + 1).toNat).drop (s.start.offset + 1).toNat

/-! ### Gaps -/

lemma munch_blank {ch : Char} (h : isBlank ch) (chars : List Char) :
    (munch (ch :: chars)).outcome = .error .strayCharacter := by
  simp only [isBlank, Bool.or_eq_true, beq_iff_eq] at h
  obtain (rfl | rfl) | rfl := h <;> rfl

lemma head_not_blank {chars : List Char} {x : Lexeme} (h : (munch chars).outcome = .ok x) :
    ∀ ch ∈ chars.head?, isBlank ch = false := by
  cases chars with
  | nil => exact fun ch hch => nomatch hch
  | cons ch chars =>
    rintro _ ⟨rfl⟩
    rw [← Bool.not_eq_true]
    intro hblank
    rw [munch_blank hblank] at h
    cases h

lemma takeWhile_gap {gap chars : List Char} {x : Lexeme} (hgap : ∀ ch ∈ gap, isBlank ch)
    (h : (munch chars).outcome = .ok x) : (gap ++ chars).takeWhile isBlank = gap :=
  takeWhile_append_of_head hgap (head_not_blank h)

/-- The gap before what can be munched is all the blanks there are. -/
lemma gap_unique {gap gap' chars chars' : List Char} {x x' : Lexeme}
    (hgap : ∀ ch ∈ gap, isBlank ch) (h : (munch chars).outcome = .ok x)
    (hgap' : ∀ ch ∈ gap', isBlank ch) (h' : (munch chars').outcome = .ok x')
    (heq : gap ++ chars = gap' ++ chars') : gap = gap' ∧ chars = chars' := by
  have hsame : gap = gap' := by
    rw [← takeWhile_gap hgap h, heq, takeWhile_gap hgap' h']
  subst hsame
  exact ⟨rfl, List.append_cancel_left heq⟩

lemma Lexeme.Formed.kind_ne_eof {x : Lexeme} (hx : x.Formed) : x.1 ≠ .eof := by
  cases hx with
  | operator h =>
    rintro rfl
    cases h
  | _ => exact nofun

lemma Division.text_eq {text rest : List Char} (h : Division text [] rest) : text = rest := by
  cases h
  rfl

lemma Division.split {gap text rest : List Char} {x : Lexeme} {pieces : List Piece}
    (h : Division text ((gap, x) :: pieces) rest) :
    ∃ more, text = gap ++ (x.spelling ++ more) ∧ (∀ ch ∈ gap, isBlank ch) ∧ x.Formed ∧
      Ends x.1 more ∧ Division more pieces rest := by
  cases h with
  | cons hgap hx hends h => exact ⟨_, rfl, hgap, hx, hends, h⟩

/-- What ends a text is no lexeme. -/
lemma Divides.not_cons {gap after gap' rest : List Char} {x : Lexeme} {pieces : List Piece}
    (hgap : ∀ ch ∈ gap, isBlank ch) (hafter : ∀ ch ∈ after.head?, ch = endMark)
    (h : Division (gap ++ after) ((gap', x) :: pieces) rest) : False := by
  obtain ⟨more, htext, hgap', hx, hends, -⟩ := h.split
  have hlexeme := munch_spelling hx hends
  have hend := munch_end hafter
  obtain ⟨-, rfl⟩ := gap_unique hgap (congrArg Munch.outcome hend) hgap'
    (congrArg Munch.outcome hlexeme) htext
  have hsame : Except.ok x = .ok (.eof, "") := congrArg Munch.outcome (hlexeme.symm.trans hend)
  exact hx.kind_ne_eof (congrArg Prod.fst (Except.ok.inj hsame))

/-- There is only one division. -/
lemma Divides.unique {text gap gap' after after' : List Char} {pieces pieces' : List Piece}
    (h : Divides text pieces gap after) (h' : Divides text pieces' gap' after') :
    pieces = pieces' ∧ gap = gap' ∧ after = after' := by
  obtain ⟨hdivision, hblank, hended⟩ := h
  obtain ⟨hdivision', hblank', hended'⟩ := h'
  induction pieces generalizing text pieces' with
  | nil =>
    obtain rfl := hdivision.text_eq
    cases pieces' with
    | nil =>
      have hsame := gap_unique hblank (congrArg Munch.outcome (munch_end hended)) hblank'
        (congrArg Munch.outcome (munch_end hended')) hdivision'.text_eq
      exact ⟨rfl, hsame⟩
    | cons piece pieces' => exact (Divides.not_cons hblank hended hdivision').elim
  | cons piece pieces ih =>
    cases pieces' with
    | nil =>
      obtain rfl := hdivision'.text_eq
      exact (Divides.not_cons hblank' hended' hdivision).elim
    | cons piece' pieces' =>
      obtain ⟨more, rfl, hgap, hx, hends, hmore⟩ := hdivision.split
      obtain ⟨more', htext, hgap', hx', hends', hmore'⟩ := hdivision'.split
      have hlexeme := munch_spelling hx hends
      have hlexeme' := munch_spelling hx' hends'
      obtain ⟨hpiece, hchars⟩ := gap_unique hgap (congrArg Munch.outcome hlexeme) hgap'
        (congrArg Munch.outcome hlexeme') htext
      rw [hchars, hlexeme'] at hlexeme
      obtain ⟨gap₁, x⟩ := piece
      obtain ⟨gap₂, x'⟩ := piece'
      obtain rfl : x' = x := by
        cases hlexeme
        rfl
      obtain rfl : more = more' := List.append_cancel_left hchars
      obtain rfl : gap₁ = gap₂ := hpiece
      obtain ⟨rfl, hlast⟩ := ih hmore hmore'
      exact ⟨rfl, hlast⟩

/-! ### Reading the pieces one by one -/

section

variable {text : String} {c : Cursor} {k : Nat}

lemma Cursor.nextToken_lexeme {gap rest : List Char} {x : Lexeme}
    (hc : c.place = (Place.ofText text).forward k)
    (htext : (uniform text.toList).drop k = gap ++ (x.spelling ++ rest))
    (hgap : ∀ ch ∈ gap, isBlank ch) (hx : x.Formed) (hends : Ends x.1 rest) :
    c.nextToken.1 = .ok ⟨x.1, x.2, ⟨.ofIndex text.toList (k + gap.length),
        .ofIndex text.toList (k + gap.length + x.spelling.length)⟩⟩ ∧
      c.nextToken.2.place =
        (Place.ofText text).forward (k + gap.length + x.spelling.length) := by
  have hlexeme := munch_spelling hx hends
  have hat := Cursor.nextToken_at hc htext (takeWhile_gap hgap (congrArg Munch.outcome hlexeme))
  rw [hlexeme] at hat
  obtain ⟨houtcome, hplace⟩ := hat
  refine ⟨?_, hplace⟩
  rw [houtcome, Munch.placed, ← Place.forward_add, forward_ofText_pos, forward_ofText_pos]

lemma Cursor.nextToken_end {gap after : List Char} (hc : c.place = (Place.ofText text).forward k)
    (htext : (uniform text.toList).drop k = gap ++ after)
    (hgap : ∀ ch ∈ gap, isBlank ch) (hafter : ∀ ch ∈ after.head?, ch = endMark) :
    c.nextToken.1 = .ok (endToken text.toList (k + gap.length)) := by
  have hend := munch_end hafter
  have hat := Cursor.nextToken_at hc htext (takeWhile_gap hgap (congrArg Munch.outcome hend))
  rw [hend] at hat
  rw [hat.1, Munch.placed, endToken, Span.point, ← forward_ofText_pos]
  rfl

lemma Division.drop_text {gap rest : List Char} {x : Lexeme} {chars : List Char}
    (htext : chars.drop k = gap ++ (x.spelling ++ rest)) :
    chars.drop (k + gap.length + x.spelling.length) = rest := by
  rw [Nat.add_assoc, ← List.drop_drop, htext, ← List.append_assoc, ← List.length_append,
    List.drop_left]

/-- A division is read as its tokens. -/
lemma Divides.tokens {pieces : List Piece} {gap after : List Char}
    (h : Divides ((uniform text.toList).drop k) pieces gap after)
    (hc : c.place = (Place.ofText text).forward k) :
    c.tokens.1 = (located text.toList k pieces (some gap), none) := by
  obtain ⟨hdivision, hblank, hended⟩ := h
  induction pieces generalizing k c with
  | nil => exact Cursor.tokens_of_eof (Cursor.nextToken_end hc hdivision.text_eq hblank hended) rfl
  | cons piece pieces ih =>
    obtain ⟨own, x⟩ := piece
    obtain ⟨more, htext, hown, hx, hends, hmore⟩ := hdivision.split
    obtain ⟨htoken, hplace⟩ := Cursor.nextToken_lexeme hc htext hown hx hends
    rw [← Division.drop_text htext] at hmore
    rw [Cursor.tokens_of_token htoken hx.kind_ne_eof, ih hplace hmore, located]

/-- What is read are the tokens of a division, up to the end of the text or to a fault. -/
lemma Cursor.tokens_divide {ts : List Token} {fault : Option LexFault}
    (hc : c.place = (Place.ofText text).forward k) (h : c.tokens.1 = (ts, fault)) :
    ∃ pieces rest last, Division ((uniform text.toList).drop k) pieces rest ∧
      ts = located text.toList k pieces last ∧
      (fault = none → ∃ gap after, last = some gap ∧
        Divides ((uniform text.toList).drop k) pieces gap after) ∧
      (fault ≠ none → last = none) := by
  induction ts generalizing k c with
  | nil =>
    obtain ⟨f, rfl, -⟩ := Cursor.nextToken_of_tokens_nil h
    refine ⟨[], _, none, .nil, rfl, ?_, fun _ => rfl⟩
    intro hnone
    cases hnone
  | cons t ts ih =>
    obtain ⟨ht, hnext⟩ := Cursor.nextToken_of_tokens_cons h
    -- the blanks to come are the gap, and the token is munched from what follows them
    obtain ⟨gap, chars, hsplit, hgap, htake⟩ := gap_split ((uniform text.toList).drop k)
    have hat := Cursor.nextToken_at hc hsplit htake
    cases hmunch : (munch chars).outcome with
    | error cause =>
      rw [ht, Munch.placed, hmunch] at hat
      cases hat.1
    | ok x =>
      obtain ⟨hx, rest, hrest, hends⟩ | ⟨rfl, hended⟩ := munch_cases hmunch
      · rw [hrest] at hsplit
        obtain ⟨htoken, hplace⟩ := Cursor.nextToken_lexeme hc hsplit hgap hx hends
        rw [ht] at htoken
        cases htoken
        rw [if_neg hx.kind_ne_eof] at hnext
        obtain ⟨pieces, left, last, hdivision, hts, hnone, hsome⟩ := ih hplace hnext
        rw [Division.drop_text hsplit] at hdivision hnone
        refine ⟨(gap, x) :: pieces, left, last, ?_, ?_, ?_, hsome⟩
        · rw [hsplit]
          exact .cons hgap hx hends hdivision
        · rw [located, ← hts]
        · intro hfault
          obtain ⟨lastGap, after, rfl, hdivides⟩ := hnone hfault
          refine ⟨lastGap, after, rfl, ?_, hdivides.blank, hdivides.ended⟩
          rw [hsplit]
          exact .cons hgap hx hends hdivides.division
      · have htoken := Cursor.nextToken_end hc hsplit hgap hended
        rw [ht] at htoken
        cases htoken
        obtain ⟨rfl, rfl⟩ : ts = [] ∧ fault = none := hnext
        refine ⟨[], gap ++ chars, some gap, ?_, rfl, ?_, fun h => (h rfl).elim⟩
        · rw [hsplit]
          exact .nil
        · refine fun _ => ⟨gap, chars, rfl, ?_, hgap, hended⟩
          rw [hsplit]
          exact .nil

end

/-! ### What spans cover -/

/-- The spans of the tokens of pieces: they cover the spellings, are not empty, and follow one
another. -/
structure SpansCover (raw : List Char) (pieces : List Piece) (ts : List Token) : Prop where
  texts : ((ts.filter (·.kind ≠ .eof)).map fun t => uniform (t.span.cut raw)) =
    pieces.map fun p => p.2.spelling
  proper : ∀ t ∈ ts, t.kind ≠ .eof → t.span.start.offset < t.span.stop.offset
  ordered : ts.Pairwise fun t u => t.span.stop.offset ≤ u.span.start.offset

lemma cut_ofIndex (raw : List Char) {j k : Nat} (hjk : j ≤ k) :
    uniform (Span.cut raw ⟨.ofIndex raw j, .ofIndex raw k⟩) = ((uniform raw).take k).drop j := by
  have hcast : ∀ i : Nat, ((Position.ofIndex raw i).offset + 1).toNat = extent raw i := by
    intro i
    rw [ofIndex_offset]
    omega
  rw [Span.cut, hcast, hcast, uniform_cut raw hjk]

lemma Lexeme.Formed.spelling_ne_nil {x : Lexeme} (hx : x.Formed) : x.spelling ≠ [] := by
  cases hx with
  | hi => exact nofun
  | print => exact nofun
  | string h => exact nofun
  | number hne h => exact hne
  | @operator op h =>
    rw [Lexeme.spelling_operator h]
    obtain rfl | ⟨symbol, hsymbol, -⟩ := symbol_of_isOperator h
    · exact nofun
    · rw [hsymbol]
      exact nofun

section

variable {raw : List Char} {k : Nat} {pieces : List Piece} {last : Option (List Char)}

lemma located_texts {rest : List Char} (h : Division ((uniform raw).drop k) pieces rest) :
    (((located raw k pieces last).filter (·.kind ≠ .eof)).map fun t => uniform (t.span.cut raw)) =
      pieces.map fun p => p.2.spelling := by
  induction pieces generalizing k with
  | nil => cases last <;> rfl
  | cons piece pieces ih =>
    obtain ⟨gap, x⟩ := piece
    obtain ⟨more, htext, -, hx, -, hmore⟩ := h.split
    have hcover : ((uniform raw).take (k + gap.length + x.spelling.length)).drop (k + gap.length) =
        x.spelling := by
      rw [List.drop_take, ← List.drop_drop, htext, List.drop_left, Nat.add_sub_cancel_left,
        List.take_left]
    rw [← Division.drop_text htext] at hmore
    rw [located, List.filter_cons_of_pos (by simpa using hx.kind_ne_eof), List.map_cons, ih hmore,
      cut_ofIndex raw (Nat.le_add_right _ _), hcover, List.map_cons]

lemma located_proper {rest : List Char} (h : Division ((uniform raw).drop k) pieces rest) :
    ∀ t ∈ located raw k pieces last, t.kind ≠ .eof →
      t.span.start.offset < t.span.stop.offset := by
  induction pieces generalizing k with
  | nil =>
    intro t ht hkind
    cases last with
    | none => cases ht
    | some gap =>
      obtain rfl := List.mem_singleton.mp ht
      exact (hkind rfl).elim
  | cons piece pieces ih =>
    obtain ⟨gap, x⟩ := piece
    obtain ⟨more, htext, -, hx, -, hmore⟩ := h.split
    have hpositive := List.length_pos_iff.mpr hx.spelling_ne_nil
    have hwithin : k + gap.length + x.spelling.length ≤ (uniform raw).length := by
      have hlength := congrArg List.length htext
      rw [List.length_drop, List.length_append, List.length_append] at hlength
      omega
    rw [← Division.drop_text htext] at hmore
    rw [located, List.forall_mem_cons]
    refine ⟨fun _ => ?_, ih hmore⟩
    have hlt : extent raw (k + gap.length) < extent raw (k + gap.length + x.spelling.length) :=
      extent_lt (by omega) hwithin
    simp only [ofIndex_offset]
    omega

lemma located_start : ∀ t ∈ located raw k pieces last,
    (Position.ofIndex raw k).offset ≤ t.span.start.offset := by
  have hle : ∀ j d, (Position.ofIndex raw j).offset ≤ (Position.ofIndex raw (j + d)).offset := by
    intro j d
    have hextent := extent_le raw (Nat.le_add_right j d)
    rw [ofIndex_offset, ofIndex_offset]
    omega
  induction pieces generalizing k with
  | nil =>
    intro t ht
    cases last with
    | none => cases ht
    | some gap =>
      obtain rfl := List.mem_singleton.mp ht
      exact hle k gap.length
  | cons piece pieces ih =>
    obtain ⟨gap, x⟩ := piece
    rw [located, List.forall_mem_cons]
    refine ⟨hle k gap.length, fun t ht => ?_⟩
    calc (Position.ofIndex raw k).offset
        ≤ (Position.ofIndex raw (k + gap.length)).offset := hle k _
      _ ≤ (Position.ofIndex raw (k + gap.length + x.spelling.length)).offset := hle _ _
      _ ≤ t.span.start.offset := ih t ht

lemma located_ordered : (located raw k pieces last).Pairwise fun t u =>
    t.span.stop.offset ≤ u.span.start.offset := by
  induction pieces generalizing k with
  | nil => cases last <;> simp [located]
  | cons piece pieces ih =>
    obtain ⟨gap, x⟩ := piece
    rw [located, List.pairwise_cons]
    exact ⟨located_start, ih⟩

end

/-- The tokens of a text are those of its one division into lexemes and gaps, and there is a fault
exactly if it has none. The tokens before a fault are those of the pieces read so far. The spans
of all these tokens cover the spellings of the lexemes, one after the other. -/
theorem tokens_iff_division (text file : String) :
    let raw := text.toList
    let tokens := (Cursor.ofText text file).tokens.1
    (∀ ts, tokens = (ts, none) ↔ ∃ pieces gap after,
      Divides (uniform raw) pieces gap after ∧ ts = located raw 0 pieces (some gap)) ∧
    (∀ pieces gap after pieces' gap' after', Divides (uniform raw) pieces gap after →
      Divides (uniform raw) pieces' gap' after' →
        pieces = pieces' ∧ gap = gap' ∧ after = after') ∧
    (∀ ts f, tokens = (ts, some f) → ∃ pieces rest,
      Division (uniform raw) pieces rest ∧ ts = located raw 0 pieces none) ∧
    ∀ pieces rest last, Division (uniform raw) pieces rest →
      SpansCover raw pieces (located raw 0 pieces last) := by
  intro raw tokens
  refine ⟨fun ts => ⟨fun h => ?_, ?_⟩, ?_, ?_, ?_⟩
  · obtain ⟨pieces, rest, last, -, rfl, hnone, -⟩ := Cursor.tokens_divide (k := 0) rfl h
    obtain ⟨gap, after, rfl, hdivides⟩ := hnone rfl
    exact ⟨pieces, gap, after, hdivides, rfl⟩
  · rintro ⟨pieces, gap, after, hdivides, rfl⟩
    exact Divides.tokens (k := 0) hdivides rfl
  · exact fun _ _ _ _ _ _ h h' => h.unique h'
  · intro ts f h
    obtain ⟨pieces, rest, last, hdivision, rfl, -, hsome⟩ := Cursor.tokens_divide (k := 0) rfl h
    obtain rfl := hsome (Option.some_ne_none f)
    exact ⟨pieces, rest, hdivision, rfl⟩
  · exact fun pieces rest last h =>
      ⟨located_texts (k := 0) h, located_proper (k := 0) h, located_ordered⟩

theorem tokens_of_three_stars :
    let text := "2***\r\n3"
    let pieces : List Piece :=
      [([], .number, "2"), ([], .power, ""), ([], .times, ""), (['\n'], .number, "3")]
    Divides (uniform text.toList) pieces [] [] ∧
    (Cursor.ofText text "stars.hi").tokens.1 = (located text.toList 0 pieces (some []), none) ∧
    (∀ pieces' gap after, Divides (uniform text.toList) pieces' gap after →
      pieces' = pieces ∧ gap = [] ∧ after = []) ∧
    SpansCover text.toList pieces (located text.toList 0 pieces (some [])) := by
  intro text pieces
  have hnumber : ∀ ch, isDigit ch → Lexeme.Formed (.number, String.singleton ch) := by
    intro ch hch
    exact .number (by simp) (by simpa using hch)
  have hempty : ∀ ch ∈ ([] : List Char), isBlank ch := List.forall_mem_nil _
  have hthree : Division ['\n', '3'] [(['\n'], .number, "3")] [] :=
    @Division.cons ['\n'] [] [] (.number, "3") [] (by simp [isBlank]) (hnumber '3' rfl)
      (by simp [Ends]) .nil
  have htimes : Division ['*', '\n', '3'] [([], .times, ""), (['\n'], .number, "3")] [] := by
    refine @Division.cons [] _ _ (.times, "") _ hempty (.operator rfl) ?_ hthree
    rintro _ ⟨rfl⟩
    decide
  have hpower := @Division.cons [] _ _ (.power, "") _ hempty (.operator rfl)
    (.of_kind .power (by decide) (by decide) _) htimes
  have htwo : Division "2***\n3".toList pieces [] := by
    refine @Division.cons [] _ _ (.number, "2") _ hempty (hnumber '2' rfl) ?_ hpower
    rintro _ ⟨rfl⟩
    decide
  have htext : uniform text.toList = "2***\n3".toList := by decide
  have hdivision : Division (uniform text.toList) pieces [] := htext ▸ htwo
  have hdivides : Divides (uniform text.toList) pieces [] [] := ⟨hdivision, hempty, by simp⟩
  obtain ⟨htokens, hunique, -, hcover⟩ := tokens_iff_division text "stars.hi"
  exact ⟨hdivides, (htokens _).mpr ⟨pieces, [], [], hdivides, rfl⟩,
    fun _ _ _ h => hunique _ _ _ _ _ _ h hdivides, hcover _ _ _ hdivision⟩

end HiToolchain
