import HiToolchain.Proofs.Pieces
import HiToolchain.Proofs.Rejection
import HiToolchain.Proofs.Respan

/-!
# Programs one after the other

Two programs with something blank between them are one program: it has the statements of the first
as they are, then those of the second. Nothing marks where a statement ends, but no statement
starts with an operator, and a blank ends every lexeme.
-/

namespace HiToolchain

/-! ### Where two texts meet -/

/-- Texts can be put together unless a carriage return at the end of the first could join a line
feed. -/
lemma Glyph.ofChars_append_of_last {front : List Char} (rest : List Char)
    (h : (uniform front).getLast? ≠ some '\n') :
    Glyph.ofChars (front ++ rest) = Glyph.ofChars front ++ Glyph.ofChars rest := by
  induction front using logical_induction with
  | nil => rfl
  | pair front ih =>
    have hfront : (uniform front).getLast? ≠ some '\n' := by
      intro hlast
      rw [uniform_pair, List.getLast?_cons, hlast] at h
      exact h rfl
    rw [List.cons_append, List.cons_append, Glyph.ofChars, ih hfront, Glyph.ofChars,
      List.cons_append]
  | single c front hsingle ih =>
    have hfront : (uniform front).getLast? ≠ some '\n' := by
      intro hlast
      rw [uniform_single hsingle, List.getLast?_cons, hlast] at h
      exact h rfl
    have hseam : ¬(c = '\r' ∧ (front ++ rest).head? = some '\n') := by
      cases front with
      | nil =>
        rintro ⟨rfl, -⟩
        exact h rfl
      | cons d front => exact hsingle
    rw [List.cons_append, ofChars_single hseam, ih hfront, ofChars_single hsingle,
      List.cons_append]

lemma mem_of_mem_uniform {raw : List Char} {ch : Char} (h : ch ∈ uniform raw) (hne : ch ≠ '\n') :
    ch ∈ raw := by
  induction raw using logical_induction with
  | nil => cases h
  | pair rest ih =>
    rw [uniform_pair, List.mem_cons] at h
    simp [ih (h.resolve_left hne)]
  | single c rest hsingle ih =>
    rw [uniform_single hsingle, List.mem_cons] at h
    by_cases hc : c = '\r'
    · rw [if_pos hc] at h
      simp [ih (h.resolve_left hne)]
    · rw [if_neg hc] at h
      exact List.mem_cons.mpr (h.imp_right ih)

lemma separators_of_uniform {raw : List Char} (h : ∀ ch ∈ uniform raw, isBlank ch) :
    ∀ ch ∈ raw, isSeparator ch := by
  induction raw using logical_induction with
  | nil => exact nofun
  | pair rest ih =>
    rw [uniform_pair, List.forall_mem_cons] at h
    rw [List.forall_mem_cons, List.forall_mem_cons]
    exact ⟨rfl, rfl, ih h.2⟩
  | single c rest hsingle ih =>
    rw [uniform_single hsingle, List.forall_mem_cons] at h
    rw [List.forall_mem_cons]
    refine ⟨?_, ih h.2⟩
    by_cases hc : c = '\r'
    · rw [hc]
      rfl
    · have hblank := h.1
      rw [if_neg hc] at hblank
      rw [isSeparator, hblank, Bool.true_or]

lemma ofIndex_congr {raw raw' : List Char} {n k : Nat}
    (h : (Glyph.ofChars raw).take n = (Glyph.ofChars raw').take n) (hk : k ≤ n) :
    Position.ofIndex raw k = Position.ofIndex raw' k := by
  have hk' : (Glyph.ofChars raw).take k = (Glyph.ofChars raw').take k := by
    rw [← Nat.min_eq_left hk, ← List.take_take, h, List.take_take]
  simp only [Position.ofIndex, getLast_ends, extent, ← map_char_ofChars, ← List.map_take, hk']

lemma located_congr {raw raw' : List Char} {n k : Nat} {pieces : List Piece}
    (h : (Glyph.ofChars raw).take n = (Glyph.ofChars raw').take n)
    (hn : k + (spelled pieces).length ≤ n) :
    located raw k pieces none = located raw' k pieces none := by
  induction pieces generalizing k with
  | nil => rfl
  | cons piece pieces ih =>
    obtain ⟨gap, x⟩ := piece
    simp only [spelled_cons, List.length_append] at hn
    rw [located, located, ofIndex_congr h (by omega), ofIndex_congr h (by omega), ih (by omega)]

/-! ### Gaps -/

/-- Blanks in front of a text belong to the gap that it starts with. -/
lemma blank_front {front text gap more : List Char} (hfront : ∀ ch ∈ front, isBlank ch)
    (hmore : ∀ ch ∈ more.head?, isBlank ch = false) (heq : front ++ text = gap ++ more) :
    ∃ own, gap = front ++ own ∧ text = own ++ more := by
  obtain ⟨own, hgap, htext⟩ | ⟨own, hgap, htext⟩ := List.append_eq_append_iff.mp heq
  · exact ⟨own, hgap, htext⟩
  · cases own with
    | nil => exact ⟨[], by simpa using hgap.symm, by simpa using htext.symm⟩
    | cons ch own =>
      have hblank := hfront ch (by simp [hgap])
      rw [hmore ch (by simp [htext])] at hblank
      cases hblank

/-- Other blanks in front change the first gap and no lexeme. -/
lemma Divides.regap {front front' text gap after : List Char} {pieces : List Piece}
    (h : Divides (front ++ text) pieces gap after) (hfront : ∀ ch ∈ front, isBlank ch)
    (hfront' : ∀ ch ∈ front', isBlank ch) :
    ∃ pieces' gap', Divides (front' ++ text) pieces' gap' after ∧
      pieces'.map Prod.snd = pieces.map Prod.snd := by
  obtain ⟨hdivision, hblank, hended⟩ := h
  cases pieces with
  | nil =>
    have hafter := head_not_blank (congrArg Munch.outcome (munch_end hended))
    obtain ⟨own, rfl, rfl⟩ := blank_front hfront hafter hdivision.text_eq
    refine ⟨[], front' ++ own, ⟨?_, ?_, hended⟩, rfl⟩
    · rw [List.append_assoc]
      exact .nil
    · rw [List.forall_mem_append] at hblank ⊢
      exact ⟨hfront', hblank.2⟩
  | cons piece pieces =>
    obtain ⟨gap₀, x⟩ := piece
    obtain ⟨more, htext, hgap₀, hx, hends, hmore⟩ := hdivision.split
    have hlexeme := head_not_blank (congrArg Munch.outcome (munch_spelling hx hends))
    obtain ⟨own, rfl, rfl⟩ := blank_front hfront hlexeme htext
    refine ⟨(front' ++ own, x) :: pieces, gap, ⟨?_, hblank, hended⟩, rfl⟩
    rw [← List.append_assoc]
    refine .cons ?_ hx hends hmore
    rw [List.forall_mem_append] at hgap₀ ⊢
    exact ⟨hfront', hgap₀.2⟩

/-- No lexeme ends with a line feed. -/
lemma Lexeme.Formed.getLast_ne {x : Lexeme} (hx : x.Formed) :
    x.spelling.getLast? ≠ some '\n' := by
  cases hx with
  | hi => decide
  | print => decide
  | string h =>
    rw [Lexeme.spelling, List.getLast?_append]
    intro hlast
    cases hlast
  | number hne h =>
    intro hlast
    cases h '\n' (List.mem_of_getLast? hlast)
  | @operator op h =>
    rw [Lexeme.spelling_operator h]
    cases op with
    | plus | minus | times | divide | power => decide
    | _ => cases h

lemma Division.getLast_ne {text rest : List Char} {pieces : List Piece}
    (h : Division text pieces rest) : (spelled pieces).getLast? ≠ some '\n' := by
  obtain rfl | ⟨pieces, ⟨gap, x⟩, rfl⟩ := List.eq_nil_or_concat' pieces
  · exact nofun
  · have hx : x.Formed := h.formed (gap, x) (by simp)
    have hspelled : spelled (pieces ++ [(gap, x)]) = (spelled pieces ++ gap) ++ x.spelling := by
      simp [spelled]
    rw [hspelled, List.getLast?_append_of_ne_nil _ hx.spelling_ne_nil]
    exact hx.getLast_ne

/-! ### The pieces of both -/

/-- Separators, whatever follows them, prolong no lexeme. -/
lemma ends_separators {gap : List Char} (hne : gap ≠ []) (hgap : ∀ ch ∈ gap, isSeparator ch)
    (rest : List Char) (kind : TokenKind) : Ends kind (uniform (gap ++ rest)) := by
  obtain ⟨ch, gap, rfl⟩ := List.exists_cons_of_ne_nil hne
  rw [← map_char_ofChars, Ends, List.head?_map, List.cons_append]
  exact (Ends.of_separator (hgap ch List.mem_cons_self)).ofChars

lemma uniform_separators {gap : List Char} (rest : List Char) (hgap : ∀ ch ∈ gap, isSeparator ch)
    (hrest : rest.head? ≠ some '\n') :
    ∃ blanks, uniform (gap ++ rest) = blanks ++ uniform rest ∧ ∀ ch ∈ blanks, isBlank ch := by
  obtain ⟨blanks, hblanks, hblank⟩ := Glyph.ofChars_separators rest hgap hrest
  refine ⟨blanks.map Glyph.char, ?_, List.forall_mem_map.mpr hblank⟩
  rw [← map_char_ofChars, hblanks, List.map_append, map_char_ofChars]

/-- A text that is divided to its end is its lexemes and gaps, then separators. -/
lemma Divides.split_last {raw gap : List Char} {pieces : List Piece}
    (h : Divides (uniform raw) pieces gap []) :
    ∃ front tail, raw = front ++ tail ∧ (∀ ch ∈ tail, isSeparator ch) ∧
      uniform front = spelled pieces ∧
      Glyph.ofChars front = (Glyph.ofChars raw).take (spelled pieces).length := by
  have htext : uniform raw = spelled pieces ++ gap := by simpa using h.division.text_eq_spelled
  let n := extent raw (spelled pieces).length
  have htail : uniform (raw.drop n) = gap := by
    rw [← map_char_ofChars, ofChars_drop, List.map_drop, map_char_ofChars, htext, List.drop_left]
  have hfront : uniform (raw.take n) = spelled pieces := by
    rw [← map_char_ofChars, ofChars_take, List.map_take, map_char_ofChars, htext, List.take_left]
  refine ⟨raw.take n, raw.drop n, (List.take_append_drop n raw).symm, ?_, hfront,
    ofChars_take raw _⟩
  apply separators_of_uniform
  rw [htail]
  exact h.blank

lemma Divides.after_eq_nil {raw gap after : List Char} {pieces : List Piece}
    (h : Divides (uniform raw) pieces gap after) (hmark : endMark ∉ raw) : after = [] := by
  cases after with
  | nil => rfl
  | cons ch after =>
    obtain rfl := h.ended ch rfl
    refine (hmark (mem_of_mem_uniform ?_ (by decide))).elim
    simp [h.division.text_eq_spelled]

lemma split_first (raw : List Char) : ∃ lead rest, raw = lead ++ rest ∧
    (∀ ch ∈ lead, isSeparator ch) ∧ rest.head? ≠ some '\n' := by
  refine ⟨raw.takeWhile isSeparator, raw.dropWhile isSeparator,
    List.takeWhile_append_dropWhile.symm, fun ch => List.mem_takeWhile_imp, ?_⟩
  intro hfeed
  have hnot := List.head?_dropWhile_not isSeparator raw
  rw [hfeed] at hnot
  cases hnot

/-- The pieces of the first text are followed by the lexemes of the second. The logical characters
of the first up to its last lexeme are untouched. -/
lemma Divides.concatenation {first gap second gap₁ gap₂ after : List Char}
    {pieces pieces' : List Piece} (h : Divides (uniform first) pieces gap₁ [])
    (h' : Divides (uniform second) pieces' gap₂ after) (hne : gap ≠ [])
    (hgap : ∀ ch ∈ gap, isSeparator ch) :
    ∃ more gap', Divides (uniform (first ++ gap ++ second)) (pieces ++ more) gap' after ∧
      more.map Prod.snd = pieces'.map Prod.snd ∧
      (Glyph.ofChars (first ++ gap ++ second)).take (spelled pieces).length =
        (Glyph.ofChars first).take (spelled pieces).length := by
  obtain ⟨front, tail, rfl, htail, hfront, hglyphs⟩ := h.split_last
  obtain ⟨lead, rest, rfl, hlead, hrest⟩ := split_first second
  -- all separators between the last lexeme of the first text and the first one of the second
  let gaps := tail ++ gap ++ lead
  have hwhole : front ++ tail ++ gap ++ (lead ++ rest) = front ++ (gaps ++ rest) := by
    simp [gaps]
  have hgapsNe : gaps ≠ [] := by simp [gaps, hne]
  have hgaps : ∀ ch ∈ gaps, isSeparator ch := by
    rw [List.forall_mem_append, List.forall_mem_append]
    exact ⟨⟨htail, hgap⟩, hlead⟩
  obtain ⟨blanks, hblanks, hblank⟩ := uniform_separators rest hgaps hrest
  obtain ⟨blanks', hblanks', hblank'⟩ := uniform_separators rest hlead hrest
  rw [hblanks'] at h'
  obtain ⟨more, gap', hmore, hlexemes⟩ := h'.regap hblank' hblank
  rw [← hblanks] at hmore
  have hseam : Glyph.ofChars (front ++ (gaps ++ rest)) =
      Glyph.ofChars front ++ Glyph.ofChars (gaps ++ rest) := by
    apply Glyph.ofChars_append_of_last
    rw [hfront]
    exact h.division.getLast_ne
  have htext : uniform (front ++ (gaps ++ rest)) = spelled pieces ++ uniform (gaps ++ rest) := by
    rw [← map_char_ofChars, hseam, List.map_append, map_char_ofChars, map_char_ofChars, hfront]
  rw [hwhole]
  refine ⟨more, gap', ⟨?_, hmore.blank, hmore.ended⟩, hlexemes, ?_⟩
  · rw [htext]
    exact (h.division.followed (ends_separators hgapsNe hgaps rest)).append hmore.division
  · have hlength : (Glyph.ofChars front).length = (spelled pieces).length := by
      rw [length_ofChars, hfront]
    rw [hseam, ← hglyphs, ← hlength, List.take_left]

/-! ### Runs of both -/

lemma runStmts_append_of_none [Elementary] {body more : List Stmt}
    (h : (runStmts none body).2 = none) :
    runStmts none (body ++ more) =
      ((runStmts none body).1 ++ (runStmts none more).1, (runStmts none more).2) := by
  induction body with
  | nil => rfl
  | cons s body ih =>
    cases hs : s.line? with
    | error fault =>
      rw [runStmts_of_fault hs] at h
      cases h
    | ok line =>
      rw [runStmts_of_line hs] at h
      rw [List.cons_append, runStmts_of_line hs, runStmts_of_line hs, ih h, List.append_assoc]

lemma runStmts_append_of_some [Elementary] {body more : List Stmt}
    (h : (runStmts none body).2 ≠ none) : runStmts none (body ++ more) = runStmts none body := by
  induction body with
  | nil => exact (h rfl).elim
  | cons s body ih =>
    cases hs : s.line? with
    | error fault => rw [List.cons_append, runStmts_of_fault hs, runStmts_of_fault hs]
    | ok line =>
      rw [runStmts_of_line hs] at h
      rw [List.cons_append, runStmts_of_line hs, runStmts_of_line hs, ih h]

/-- A program, something blank, and another program: the text is parsed to the statements of the
first, spans included, and then to those of the second. It runs as the first does and, unless that
fails, goes on as the second does. -/
theorem parse_concatenation [Elementary] (first gap second file : String) (p q : Program)
    (hp : Program.parse first file = .ok p) (hq : Program.parse second file = .ok q)
    (hmark : endMark ∉ first.toList) (hne : gap ≠ "")
    (hgap : ∀ ch ∈ gap.toList, isSeparator ch) :
    ∃ r rest, Program.parse (first ++ gap ++ second) file = .ok r ∧
      r.body = p.body ++ rest ∧ rest.map Stmt.bare = q.body.map Stmt.bare ∧
      (p.run.2 = none → r.run.1 = p.run.1 ++ q.run.1 ∧
        r.run.2.map RunFault.bare = q.run.2.map RunFault.bare) ∧
      (p.run.2 ≠ none → r.run = p.run) := by
  obtain ⟨pieces, gap₁, after, hdivides, hpFrom⟩ := parse_pieces hp
  obtain ⟨pieces', gap₂, after', hdivides', hqFrom⟩ := parse_pieces hq
  -- the first text has no end mark, so it is read to its end
  obtain rfl := hdivides.after_eq_nil hmark
  obtain ⟨more, gap', hboth, hlexemes, hglyphs⟩ :=
    hdivides.concatenation hdivides' (by simpa using hne) hgap
  rw [← String.toList_append, ← String.toList_append] at hboth hglyphs
  have hnormal : (⟨default, p.body ++ q.body⟩ : Program).isNormal := by
    rw [Program.isNormal, List.all_append, Bool.and_eq_true]
    exact ⟨hpFrom.normal, hqFrom.normal⟩
  have hboth' :
      (⟨default, p.body ++ q.body⟩ : Program).lexemes = (pieces ++ more).map Prod.snd := by
    rw [List.map_append, hlexemes, ← hpFrom.lexemes, ← hqFrom.lexemes]
    exact List.flatMap_append
  obtain ⟨r, hr, hbare⟩ := hboth.parse file hnormal hboth'
  obtain ⟨all, gapᵣ, afterᵣ, hdividesᵣ, hrFrom⟩ := parse_pieces hr
  obtain ⟨rfl, -, -⟩ := hdividesᵣ.unique hboth
  -- the tokens of the first text are the first of both, so its statements are too
  have hrBody := hrFrom.body
  rw [located_append, located_congr hglyphs (by simp)] at hrBody
  have hshapes : r.body.map Stmt.bare = p.body.map Stmt.bare ++ q.body.map Stmt.bare :=
    (Program.mk.inj hbare).2.trans List.map_append
  obtain ⟨rest, hbody, hrest⟩ := hpFrom.body.split hrBody hshapes
  obtain ⟨hlines, hfault⟩ := runStmts_eq_of_bare hrest none
  refine ⟨r, rest, hr, hbody, hrest, ?_, ?_⟩
  · intro hnone
    rw [Program.run, hbody, runStmts_append_of_none hnone]
    exact ⟨congrArg (p.run.1 ++ ·) hlines, hfault⟩
  · intro hsome
    rw [Program.run, hbody, runStmts_append_of_some hsome]
    rfl

/-- A carriage return at the end of the first text and the line feed between become one line
ending. -/
theorem parse_concatenation_across_line_ending :
    let printing := Stmt.print ⟨⟨-1, 1, 0⟩, ⟨8, 1, 9⟩⟩ (.binary ⟨⟨5, 1, 6⟩, ⟨8, 1, 9⟩⟩ .times
      (.number ⟨⟨5, 1, 6⟩, ⟨6, 1, 7⟩⟩ "2") (.number ⟨⟨7, 1, 8⟩, ⟨8, 1, 9⟩⟩ "3"))
    let greeting := Stmt.greet ⟨⟨0, 2, 0⟩, ⟨5, 2, 5⟩⟩ "b"
    Program.parse "print 2*3\r" "" = .ok ⟨⟨⟨-1, 1, 0⟩, ⟨8, 1, 9⟩⟩, [printing]⟩ ∧
      Program.parse "\nhi\"b\"" "" = .ok ⟨⟨⟨-1, 1, 0⟩, ⟨5, 2, 5⟩⟩, [greeting]⟩ ∧
      ∃ r rest, Program.parse "print 2*3\r\n\nhi\"b\"" "" = .ok r ∧ r.body = printing :: rest ∧
        rest.map Stmt.bare = [greeting.bare] ∧ r.run.1 = ["6", "hi b"] := by
  intro printing greeting
  have hp : Program.parse "print 2*3\r" "" = .ok ⟨⟨⟨-1, 1, 0⟩, ⟨8, 1, 9⟩⟩, [printing]⟩ := by
    decide +kernel
  have hq : Program.parse "\nhi\"b\"" "" = .ok ⟨⟨⟨-1, 1, 0⟩, ⟨5, 2, 5⟩⟩, [greeting]⟩ := by
    decide +kernel
  have hrun : Program.run ⟨⟨⟨-1, 1, 0⟩, ⟨8, 1, 9⟩⟩, [printing]⟩ = (["6"], none) := by
    decide +kernel
  have hgap : ∀ ch ∈ "\n".toList, isSeparator ch := by simp [isSeparator, isBlank]
  obtain ⟨r, rest, hr, hbody, hrest, hlines, -⟩ := parse_concatenation "print 2*3\r" "\n"
    "\nhi\"b\"" "" _ _ hp hq (by decide) (by decide) hgap
  refine ⟨hp, hq, r, rest, hr, hbody, hrest, ?_⟩
  rw [(hlines (by rw [hrun])).1, hrun]
  rfl

end HiToolchain
