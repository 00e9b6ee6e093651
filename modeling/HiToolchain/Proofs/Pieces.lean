import HiToolchain.Proofs.Tokenization
import HiToolchain.Proofs.TreeTokens

/-!
# Pieces taken apart and put together

The pieces of a text can be parted between any two of them, and other text can follow them if it
does not prolong the last lexeme. Their tokens are parted and followed in the same way.
-/

namespace HiToolchain

/-- The characters of pieces, gaps included. -/
def spelled (pieces : List Piece) : List Char := pieces.flatMap fun p => p.1 ++ p.2.spelling

lemma spelled_cons (gap : List Char) (x : Lexeme) (pieces : List Piece) :
    spelled ((gap, x) :: pieces) = gap ++ (x.spelling ++ spelled pieces) := by
  simp [spelled]

/-! ### Divisions -/

section

variable {text middle rest : List Char} {pieces more : List Piece}

lemma Division.text_eq_spelled (h : Division text pieces rest) : text = spelled pieces ++ rest := by
  induction h with
  | nil => rfl
  | cons hgap hx hends h ih => simp [spelled_cons, ih]

lemma Division.formed (h : Division text pieces rest) : ∀ piece ∈ pieces, piece.2.Formed := by
  induction h with
  | nil => exact nofun
  | cons hgap hx hends h ih => exact List.forall_mem_cons.mpr ⟨hx, ih⟩

lemma Division.append (h : Division text pieces middle) (h' : Division middle more rest) :
    Division text (pieces ++ more) rest := by
  induction h with
  | nil => exact h'
  | cons hgap hx hends h ih => exact .cons hgap hx hends (ih h')

lemma Division.of_append (h : Division text (pieces ++ more) rest) :
    ∃ middle, Division text pieces middle ∧ Division middle more rest := by
  induction pieces generalizing text with
  | nil => exact ⟨text, .nil, h⟩
  | cons piece pieces ih =>
    cases h with
    | cons hgap hx hends h =>
      obtain ⟨middle, hpieces, hmore⟩ := ih h
      exact ⟨middle, .cons hgap hx hends hpieces, hmore⟩

/-- The pieces stay what they are when another text follows that prolongs no lexeme. -/
lemma Division.followed {after : List Char} (h : Division text pieces rest)
    (hafter : ∀ kind, Ends kind after) : Division (spelled pieces ++ after) pieces after := by
  induction h with
  | nil => exact .nil
  | @cons gap text rest x pieces hgap hx hends h ih =>
    rw [spelled_cons, List.append_assoc, List.append_assoc]
    refine .cons hgap hx ?_ ih
    cases h with
    | nil => exact hafter x.1
    | @cons gap' text' _ y pieces hgap' hy hends' h' =>
      -- the next piece is not empty, so it alone decides
      have hne : spelled ((gap', y) :: pieces) ≠ [] := by
        simp [spelled_cons, hy.spelling_ne_nil]
      rw [(Division.cons hgap' hy hends' h').text_eq_spelled] at hends
      intro ch hch
      apply hends
      rw [List.head?_append_of_ne_nil _ hne] at hch ⊢
      exact hch

end

/-! ### Tokens -/

lemma lexemes_located (raw : List Char) (k : Nat) (pieces : List Piece) :
    (located raw k pieces none).map Token.lexeme = pieces.map Prod.snd := by
  induction pieces generalizing k with
  | nil => rfl
  | cons piece pieces ih => simp [located, ih, Token.lexeme]

lemma length_located (raw : List Char) (k : Nat) (pieces : List Piece) :
    (located raw k pieces none).length = pieces.length := by
  simpa using congrArg List.length (lexemes_located raw k pieces)

lemma located_append (raw : List Char) (k : Nat) (pieces more : List Piece)
    (last : Option (List Char)) :
    located raw k (pieces ++ more) last =
      located raw k pieces none ++ located raw (k + (spelled pieces).length) more last := by
  induction pieces generalizing k with
  | nil => rfl
  | cons piece pieces ih =>
    obtain ⟨gap, x⟩ := piece
    simp [located, ih, spelled_cons, Nat.add_assoc]

/-- All tokens of a text that is read to its end: those of its pieces, and the end. -/
lemma located_some (raw : List Char) (k : Nat) (pieces : List Piece) (gap : List Char) :
    located raw k pieces (some gap) =
      located raw k pieces none ++ [endToken raw (k + (spelled pieces).length + gap.length)] := by
  conv_lhs => rw [← List.append_nil pieces, located_append]
  rfl

/-- Tokens next to one another are those of pieces next to one another. -/
lemma located_infix {raw : List Char} {k : Nat} {pieces : List Piece} {us : List Token}
    (h : us <:+: located raw k pieces none) :
    ∃ before own after, pieces = before ++ (own ++ after) ∧
      us = located raw (k + (spelled before).length) own none := by
  obtain ⟨left, right, hsplit⟩ := h
  have hlength : left.length + us.length + right.length = pieces.length := by
    rw [← length_located raw k pieces, ← hsplit, List.length_append, List.length_append]
  let before := pieces.take left.length
  let own := (pieces.drop left.length).take us.length
  let after := (pieces.drop left.length).drop us.length
  have hpieces : pieces = before ++ (own ++ after) := by
    rw [List.take_append_drop, List.take_append_drop]
  have hbefore : before.length = left.length := by simp [before]; omega
  have hown : own.length = us.length := by simp [own]; omega
  rw [hpieces, located_append, located_append, List.append_assoc] at hsplit
  obtain ⟨-, hsplit⟩ := List.append_inj hsplit (by rw [length_located, hbefore])
  obtain ⟨hus, -⟩ := List.append_inj hsplit (by rw [length_located, hown])
  exact ⟨before, own, after, hpieces, hus⟩

/-! ### Programs -/

/-- A program and the pieces of the text that it was read from. -/
structure Program.ReadFrom (p : Program) (raw : List Char) (pieces : List Piece) : Prop where
  body : StmtsReadFrom p.body (located raw 0 pieces none)
  regular : ∀ t ∈ located raw 0 pieces none, t.Regular
  normal : p.isNormal
  lexemes : p.lexemes = pieces.map Prod.snd

lemma parse_pieces {text file : String} {p : Program} (h : Program.parse text file = .ok p) :
    ∃ pieces gap after, Divides (uniform text.toList) pieces gap after ∧
      p.ReadFrom text.toList pieces := by
  obtain ⟨ts, last, htokens, hbody, -⟩ := parse_traced h
  obtain ⟨hnormal, hlexemes⟩ := parse_reads htokens h
  obtain ⟨pieces, rest, last', -, hlocated, hnone, -⟩ := Cursor.tokens_divide (k := 0) rfl htokens
  obtain ⟨gap, after, rfl, hdivides⟩ := hnone rfl
  rw [located_some] at hlocated
  obtain ⟨rfl, -⟩ := List.append_inj' hlocated rfl
  refine ⟨pieces, gap, after, hdivides, hbody, ?_, hnormal, ?_⟩
  · exact fun t ht => Cursor.tokens_regular htokens t (List.mem_append_left _ ht)
  · rw [hlexemes, lexemes_located]

/-- A normal program with the lexemes of a division is what the text is parsed to. -/
lemma Divides.parse {text : String} {pieces : List Piece} {gap after : List Char}
    (h : Divides (uniform text.toList) pieces gap after) (file : String) {q : Program}
    (hnormal : q.isNormal) (hlexemes : q.lexemes = pieces.map Prod.snd) :
    ∃ p, Program.parse text file = .ok p ∧ p.bare = q.bare := by
  have htokens := Divides.tokens (c := Cursor.ofText text file) (k := 0) h rfl
  rw [located_some] at htokens
  exact parse_readsBack htokens hnormal (hlexemes.trans (lexemes_located _ _ _).symm)

end HiToolchain
