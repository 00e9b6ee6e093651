import HiToolchain.Proofs.Concatenation
import HiToolchain.Proofs.LineEndings

/-!
# Nothing after an end mark is read

The end mark stands for the end of a text and may stand in a text too. A text and the same text
with an end mark and anything else after it are read side by side: what is scanned at each index is
the same, because every lexeme that reaches the mark ends there or fails there. Only how far a
failing scan reads can differ, and with it the place that its fault names.
-/

namespace HiToolchain

/-- The fault with its place taken away. -/
def LexFault.unplaced (f : LexFault) : LexFault := { f with line := 0, column := 0 }

/-- A fault of the tokens with its place taken away; one of the grammar stays as it is. -/
def ReadFault.unplaced : ReadFault → ReadFault
  | lexical f => lexical f.unplaced
  | grammatical f => grammatical f

/-! ### Scanning up to a mark -/

lemma takeWhile_append_mark {keep : Char → Bool} (hkeep : keep endMark = false)
    (chars more : List Char) :
    (chars ++ endMark :: more).takeWhile keep = chars.takeWhile keep := by
  induction chars with
  | nil => simp [hkeep]
  | cons ch chars ih =>
    rw [List.cons_append, List.takeWhile_cons, List.takeWhile_cons, ih]

section

variable {chars : List Char} (more : List Char)

lemma Munch.keyword_mark (kind : TokenKind) {word : String} (hword : endMark ∉ word.toList) :
    Munch.keyword kind word (chars ++ endMark :: more) = .keyword kind word chars := by
  have hfront : (chars ++ endMark :: more ++ [endMark]).take word.length = word.toList ↔
      (chars ++ [endMark]).take word.length = word.toList := by
    by_cases hlength : word.length ≤ chars.length
    · rw [List.append_assoc, List.take_append_of_le_length hlength,
        List.take_append_of_le_length hlength]
    · -- either way the mark is among the characters compared
      have hmark : ∀ rest : List Char,
          (chars ++ endMark :: rest).take word.length ≠ word.toList := by
        intro rest htake
        apply hword
        rw [← htake, List.take_append, List.mem_append]
        right
        obtain ⟨n, hn⟩ := Nat.exists_eq_add_one_of_ne_zero (n := word.length - chars.length)
          (by omega)
        rw [hn, List.take_succ_cons]
        exact List.mem_cons_self
      rw [List.append_assoc, List.cons_append]
      exact ⟨fun h => (hmark _ h).elim, fun h => (hmark _ h).elim⟩
  simp only [Munch.keyword, hfront]

lemma Munch.string_mark (hne : chars ≠ []) :
    Munch.string (chars ++ endMark :: more) = .string chars := by
  have hquoted : Munch.quoted (chars ++ endMark :: more) = Munch.quoted chars := by
    rw [Munch.quoted, Munch.quoted, List.tail_append_of_ne_nil hne,
      takeWhile_append_mark (by decide)]
  have hclosing : ((chars ++ endMark :: more).drop ((Munch.quoted chars).length + 1)).head? =
      some '"' ↔ (chars.drop ((Munch.quoted chars).length + 1)).head? = some '"' := by
    have hlength : (Munch.quoted chars).length ≤ chars.tail.length :=
      (List.takeWhile_prefix _).length_le
    have hpositive := List.length_pos_iff.mpr hne
    rw [List.length_tail] at hlength
    rw [List.head?_drop, List.head?_drop]
    by_cases hinside : (Munch.quoted chars).length + 1 < chars.length
    · rw [List.getElem?_append_left hinside]
    · have hend : (Munch.quoted chars).length + 1 = chars.length := by omega
      rw [hend, List.getElem?_append_right (Nat.le_refl _), Nat.sub_self,
        List.getElem?_eq_none (Nat.le_refl _)]
      simp [endMark]
  simp only [Munch.string, hquoted, hclosing]

lemma Munch.number_mark : Munch.number (chars ++ endMark :: more) = .number chars := by
  rw [Munch.number, Munch.number, takeWhile_append_mark (by decide)]

lemma Munch.operator_mark (op : TokenKind) (hne : chars ≠ []) :
    Munch.operator op (chars ++ endMark :: more) = .operator op chars := by
  have hstar : (chars ++ endMark :: more).tail.head? = some '*' ↔
      chars.tail.head? = some '*' := by
    rw [List.tail_append_of_ne_nil hne]
    cases chars.tail with
    | nil => simp [endMark]
    | cons ch chars => rfl
  simp only [Munch.operator, hstar]

/-- What is scanned does not depend on anything after an end mark. -/
lemma munch_mark : munch (chars ++ endMark :: more) = munch chars := by
  cases chars with
  | nil => rfl
  | cons ch chars =>
    have hne : ch :: chars ≠ [] := List.cons_ne_nil ch chars
    unfold munch
    rw [Munch.string_mark more hne, Munch.keyword_mark more .hi (by decide),
      Munch.keyword_mark more .print (by decide), Munch.number_mark]
    simp only [List.cons_append, List.headD_cons]
    cases operator? ch with
    | some op =>
      dsimp only
      rw [← List.cons_append, Munch.operator_mark more op hne]
      rfl
    | none => rfl

end

lemma munch_length_le {chars : List Char} {x : Lexeme} (h : (munch chars).outcome = .ok x) :
    (munch chars).length ≤ chars.length := by
  obtain ⟨hx, rest, rfl, hends⟩ | ⟨-, hend⟩ := munch_cases h
  · rw [munch_spelling hx hends, List.length_append]
    exact Nat.le_add_right _ _
  · rw [munch_end hend]
    exact Nat.zero_le _

/-! ### Two texts -/

/-- Texts can be put together where no line feed follows the first. -/
lemma ofChars_append_of_head (front : List Char) {rest : List Char} (h : rest.head? ≠ some '\n') :
    Glyph.ofChars (front ++ rest) = Glyph.ofChars front ++ Glyph.ofChars rest := by
  induction front using logical_induction with
  | nil => rfl
  | pair front ih =>
    rw [List.cons_append, List.cons_append, Glyph.ofChars, ih, Glyph.ofChars, List.cons_append]
  | single c front hsingle ih =>
    have hseam : ¬(c = '\r' ∧ (front ++ rest).head? = some '\n') := by
      cases front with
      | nil => exact fun hpair => h hpair.2
      | cons d front => exact hsingle
    rw [List.cons_append, ofChars_single hseam, ih, ofChars_single hsingle, List.cons_append]

/-- The second text is the first with an end mark and more after it. -/
def FollowedByMark (text whole : String) : Prop :=
  ∃ more, whole.toList = text.toList ++ endMark :: more

section

variable {text whole : String} (h : FollowedByMark text whole)

include h

lemma FollowedByMark.ofChars : ∃ more, Glyph.ofChars whole.toList =
    Glyph.ofChars text.toList ++ ⟨endMark, 1⟩ :: more := by
  obtain ⟨more, hmore⟩ := h
  refine ⟨Glyph.ofChars more, ?_⟩
  rw [hmore, ofChars_append_of_head _ (by simp [endMark]), Glyph.ofChars_cons (by decide)]

lemma FollowedByMark.drop {k : Nat} (hk : k ≤ (uniform text.toList).length) :
    ∃ more, (uniform whole.toList).drop k =
      (uniform text.toList).drop k ++ endMark :: more := by
  obtain ⟨more, hmore⟩ := h.ofChars
  refine ⟨more.map Glyph.char, ?_⟩
  rw [← map_char_ofChars whole.toList, hmore, List.map_append, map_char_ofChars,
    List.drop_append_of_le_length hk, List.map_cons]

lemma FollowedByMark.ofIndex {k : Nat} (hk : k ≤ (uniform text.toList).length) :
    Position.ofIndex whole.toList k = Position.ofIndex text.toList k := by
  obtain ⟨more, hmore⟩ := h.ofChars
  refine ofIndex_congr ?_ hk
  rw [hmore, ← length_ofChars, List.take_left, List.take_length]

/-- One token, and the cursors are at the same index of the first text again; or two faults of one
cause. -/
lemma FollowedByMark.nextToken {c d : Cursor} {k : Nat} (hk : k ≤ (uniform text.toList).length)
    (hcd : Cursor.Abreast text whole k c d) :
    (∃ t k', c.nextToken.1 = .ok t ∧ d.nextToken.1 = .ok t ∧ k' ≤ (uniform text.toList).length ∧
      Cursor.Abreast text whole k' c.nextToken.2 d.nextToken.2) ∨
    ∃ f g, c.nextToken.1 = .error f ∧ d.nextToken.1 = .error g ∧ g.unplaced = f.unplaced := by
  obtain ⟨gap, chars, hsplit, hblank, hgap⟩ := gap_split ((uniform text.toList).drop k)
  obtain ⟨more, hmore⟩ := h.drop hk
  have hsplit' : (uniform whole.toList).drop k = gap ++ (chars ++ endMark :: more) := by
    rw [hmore, hsplit, List.append_assoc]
  have hgap' : (gap ++ (chars ++ endMark :: more)).takeWhile isBlank = gap := by
    rw [← List.append_assoc, takeWhile_append_mark (by decide), hgap]
  obtain ⟨hleft, hleftPlace⟩ := Cursor.nextToken_at hcd.left hsplit hgap
  obtain ⟨hright, hrightPlace⟩ := Cursor.nextToken_at hcd.right hsplit' hgap'
  rw [munch_mark] at hright hrightPlace
  have hfile : d.nextToken.2.file = c.nextToken.2.file := by
    rw [d.nextToken_leads.file, c.nextToken_leads.file, hcd.file]
  cases hmunch : (munch chars).outcome with
  | ok x =>
    left
    have hlength := congrArg List.length hsplit
    have hread := munch_length_le hmunch
    rw [List.length_drop, List.length_append] at hlength
    have hwithin : k + gap.length + (munch chars).length ≤ (uniform text.toList).length := by omega
    rw [Munch.placed, hmunch] at hleft hright
    refine ⟨_, _, hleft, ?_, hwithin, hfile, hleftPlace, hrightPlace⟩
    rw [hright]
    simp only [← Place.forward_add, forward_ofText_pos]
    rw [h.ofIndex hwithin, h.ofIndex (by omega)]
  | error cause =>
    right
    rw [Munch.placed, hmunch] at hleft hright
    refine ⟨_, _, hleft, hright, ?_⟩
    rw [LexFault.unplaced, LexFault.unplaced, hcd.file]

/-- The tokens are the same, and the faults that end them differ in their places at most. -/
lemma FollowedByMark.tokens {c d : Cursor} {k : Nat} (hk : k ≤ (uniform text.toList).length)
    (hcd : Cursor.Abreast text whole k c d) :
    d.tokens.1.1 = c.tokens.1.1 ∧
      d.tokens.1.2.map LexFault.unplaced = c.tokens.1.2.map LexFault.unplaced := by
  obtain ⟨ts, fault, hts⟩ : ∃ ts fault, c.tokens.1 = (ts, fault) := ⟨_, _, rfl⟩
  -- by the tokens of the first text; the second has the same one next as long as there is one
  induction ts generalizing c d k with
  | nil =>
    obtain ⟨f, rfl, hc⟩ := Cursor.nextToken_of_tokens_nil hts
    obtain ⟨t, k', ht, -⟩ | ⟨f', g, hf', hg, hfg⟩ := h.nextToken hk hcd
    · rw [hc] at ht
      cases ht
    · rw [hc] at hf'
      cases hf'
      rw [hts, Cursor.tokens_of_error hg]
      exact ⟨rfl, congrArg some hfg⟩
  | cons t ts ih =>
    obtain ⟨hc, hrest⟩ := Cursor.nextToken_of_tokens_cons hts
    obtain ⟨u, k', hu, hd, hk', hagain⟩ | ⟨f', g, hf', -⟩ := h.nextToken hk hcd
    · rw [hc] at hu
      cases hu
      by_cases hkind : t.kind = .eof
      · rw [Cursor.tokens_of_eof hc hkind, Cursor.tokens_of_eof hd hkind]
        exact ⟨rfl, rfl⟩
      · rw [if_neg hkind] at hrest
        obtain ⟨htokens, hfault⟩ := ih hk' hagain hrest
        rw [Cursor.tokens_of_token hc hkind, Cursor.tokens_of_token hd hkind]
        exact ⟨congrArg (t :: ·) htokens, hfault⟩
    · rw [hc] at hf'
      cases hf'

end

/-! ### Walks that differ in the last fault -/

lemma mapError_bind {ε δ α β : Type} (g : ε → δ) (x : Except ε α) (f : α → Except ε β) :
    (x >>= f).mapError g = x.mapError g >>= fun a => (f a).mapError g := by
  cases x <;> rfl

lemma mapError_mapError {ε δ γ α : Type} (g : ε → δ) (f : δ → γ) (x : Except ε α) :
    (x.mapError g).mapError f = x.mapError (f ∘ g) := by
  cases x <;> rfl

lemma mapError_some_inj {ε α : Type} {x y : Except ε α} (h : x.mapError some = y.mapError some) :
    x = y := by
  cases x <;> cases y <;> cases h <;> rfl

namespace TokenWalk

/-- The fault of a walk that met none at the end of the tokens, if there is one. -/
def raise (fault : Option LexFault) (e : Option ReadFault) : Option ReadFault :=
  e.or (fault.map .lexical)

section

variable (file : String) (fault : Option LexFault) (ts : List Token)

lemma first_raise : first fault ts = (first none ts).mapError (raise fault) := by
  cases ts <;> rfl

lemma expect_raise (kind : TokenKind) :
    expect file fault kind ts = (expect file none kind ts).mapError (raise fault) := by
  rw [expect, expect, mapError_bind, first_raise]
  refine bind_congr fun t => ?_
  split <;> rfl

lemma number_raise : number file fault ts = (number file none ts).mapError (raise fault) := by
  rw [number, number, mapError_bind, expect_raise]
  rfl

lemma power_raise : power file fault ts = (power file none ts).mapError (raise fault) := by
  induction ts using power.induct with
  | case1 ts ih =>
    rw [power, power.eq_def file none, mapError_bind, number_raise]
    refine bind_congr fun left => ?_
    rw [mapError_bind, first_raise]
    refine bind_congr fun op => ?_
    split
    · rw [mapError_bind, ih left op]
      rfl
    · rfl

lemma chain_raise {isOp : TokenKind → Bool}
    {operand operand' : (ts : List Token) → Outcome Expr ts}
    (hoperand : ∀ ts, operand ts = (operand' ts).mapError (raise fault)) (left : Reading Expr ts) :
    chain fault isOp operand left =
      (chain none isOp operand' left).mapError (raise fault) := by
  induction left using chain.induct with
  | case1 left ih =>
    rw [chain, chain.eq_def none, mapError_bind, first_raise]
    refine bind_congr fun op => ?_
    split
    · rw [mapError_bind, hoperand]
      exact bind_congr fun right => ih op right
    · rfl

lemma product_raise : product file fault ts = (product file none ts).mapError (raise fault) := by
  rw [product, product, mapError_bind, power_raise]
  exact bind_congr fun left => chain_raise fault ts (power_raise file fault) left

lemma sum_raise : sum file fault ts = (sum file none ts).mapError (raise fault) := by
  rw [sum, sum, mapError_bind, product_raise]
  exact bind_congr fun left => chain_raise fault ts (product_raise file fault) left

lemma statement_raise :
    statement file fault ts = (statement file none ts).mapError (raise fault) := by
  rw [statement, statement, mapError_bind, first_raise]
  refine bind_congr fun t => ?_
  split
  · rw [greeting, greeting, mapError_bind, expect_raise]
    refine bind_congr fun hi => ?_
    rw [mapError_bind, expect_raise]
    rfl
  · rw [evaluation, evaluation, mapError_bind, sum_raise]
    rfl
  · rw [printing, printing, mapError_bind, expect_raise]
    refine bind_congr fun word => ?_
    rw [mapError_bind, sum_raise]
    rfl
  · rfl

lemma statements_raise :
    statements file fault ts = (statements file none ts).mapError (raise fault) := by
  induction ts using statements.induct with
  | case1 ts ih =>
    rw [statements, statements.eq_def file none, mapError_bind, first_raise]
    refine bind_congr fun t => ?_
    split
    · rfl
    · rw [mapError_bind, statement_raise]
      refine bind_congr fun s => ?_
      rw [mapError_bind, ih s]
      rfl

/-- The fault that ends the tokens is raised where one is missing, and changes nothing else. -/
lemma program_raise :
    program file fault ts = (program file none ts).mapError (raise fault) := by
  rw [program, program, mapError_bind, statements_raise]
  rfl

end

end TokenWalk

/-- Faults that differ in their places at most are raised as faults that do. -/
lemma raise_unplaced {fault fault' : Option LexFault}
    (h : fault'.map LexFault.unplaced = fault.map LexFault.unplaced) :
    Option.map ReadFault.unplaced ∘ TokenWalk.raise fault' =
      Option.map ReadFault.unplaced ∘ TokenWalk.raise fault := by
  funext e
  cases e with
  | some e => rfl
  | none =>
    change (fault'.map ReadFault.lexical).map ReadFault.unplaced =
      (fault.map ReadFault.lexical).map ReadFault.unplaced
    have hlexical := congrArg (Option.map ReadFault.lexical) h
    rw [Option.map_map, Option.map_map] at hlexical ⊢
    exact hlexical

lemma FollowedByMark.parse {text whole : String} (h : FollowedByMark text whole) (file : String) :
    (Program.parse whole file).mapError ReadFault.unplaced =
      (Program.parse text file).mapError ReadFault.unplaced := by
  have hstart : Cursor.Abreast text whole 0 (.ofText text file) (.ofText whole file) :=
    ⟨rfl, rfl, rfl⟩
  obtain ⟨htokens, hfault⟩ := h.tokens (Nat.zero_le _) hstart
  have hwalk := parse_eq_program (.ofText text file) rfl
  have hwalk' := parse_eq_program (.ofText whole file) rfl
  rw [TokenWalk.program_raise] at hwalk hwalk'
  rw [htokens] at hwalk'
  apply mapError_some_inj
  have hunplaced : ∀ x : Except ReadFault Program, (x.mapError ReadFault.unplaced).mapError some =
      (x.mapError some).mapError (Option.map ReadFault.unplaced) := by
    intro x
    cases x <;> rfl
  rw [hunplaced, hunplaced, Program.parse, Program.parse, ← hwalk, ← hwalk', mapError_mapError,
    mapError_mapError, raise_unplaced hfault]
  rfl

/-- An end mark in a text hides all that comes after it. The tokens before it are the same with it
as without, places included, and so is what the text is parsed to, a program or a fault of the
grammar. Where a scan fails the cause is the same too, and the fault may name another place. -/
theorem text_after_mark_ignored (text after file : String) :
    let whole := text ++ String.singleton endMark ++ after
    let tokens := (Cursor.ofText text file).tokens.1
    let wholeTokens := (Cursor.ofText whole file).tokens.1
    (wholeTokens.1 = tokens.1 ∧
      wholeTokens.2.map LexFault.unplaced = tokens.2.map LexFault.unplaced) ∧
    (Program.parse whole file).mapError ReadFault.unplaced =
      (Program.parse text file).mapError ReadFault.unplaced := by
  intro whole tokens wholeTokens
  have hwhole : FollowedByMark text whole := ⟨after.toList, by simp [whole]⟩
  have hstart : Cursor.Abreast text whole 0 (.ofText text file) (.ofText whole file) :=
    ⟨rfl, rfl, rfl⟩
  exact ⟨hwhole.tokens (Nat.zero_le _) hstart, hwhole.parse file⟩

-- A string that is not closed before the mark reads the mark too.
example :
    Program.parse "hi \"a" "" = .error (.lexical ⟨"stdin", 1, 5, .unterminatedString⟩) ∧
    Program.parse ("hi \"a" ++ String.singleton endMark ++ "b\"") "" =
      .error (.lexical ⟨"stdin", 1, 6, .unterminatedString⟩) := by
  decide +kernel

end HiToolchain
