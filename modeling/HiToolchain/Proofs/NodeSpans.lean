import HiToolchain.Proofs.Pieces

/-!
# Spans of nodes

The spans in a tree that was read are nested as the nodes are, and what the span of a node cuts
out of the text can be parsed on its own, to this node alone.
-/

namespace HiToolchain

/-- The expression and all those below it. -/
def Expr.nodes : Expr → List Expr
  | .number span digits => [.number span digits]
  | .binary span op left right => .binary span op left right :: (left.nodes ++ right.nodes)
  | .foreign span node => [.foreign span node]

def Stmt.exprs : Stmt → List Expr
  | .print _ value => value.nodes
  | .evaluate _ value => value.nodes
  | _ => []

def Span.Proper (span : Span) : Prop := span.start.offset < span.stop.offset

/-- An operation runs from the start of its left operand to the end of its right one, and there is
something between them. -/
def Expr.WellPlaced : Expr → Prop
  | .binary span _ left right => span.Proper ∧ span.start = left.span.start ∧
      span.stop = right.span.stop ∧ left.span.stop.offset < right.span.start.offset
  | e => e.span.Proper

def Stmt.WellPlaced : Stmt → Prop
  | .print span value => span.Proper ∧ span.start.offset < value.span.start.offset ∧
      span.stop = value.span.stop
  | .evaluate span value => span.Proper ∧ span = value.span
  | s => s.span.Proper

/-- What its span cuts out of the text is parsed to this one statement. -/
def Stmt.CutOut (raw : List Char) (s : Stmt) : Prop :=
  ∀ file, ∃ q, Program.parse (String.ofList (s.span.cut raw)) file = .ok q ∧
    q.body.map Stmt.bare = [s.bare]

/-! ### Nodes stand for tokens next to one another -/

lemma Expr.ReadFrom.node {e n : Expr} {us : List Token} (h : e.ReadFrom us) (hn : n ∈ e.nodes) :
    ∃ vs, vs <:+: us ∧ n.ReadFrom vs := by
  induction h with
  | @number t ht =>
    obtain rfl := List.mem_singleton.mp hn
    exact ⟨[t], List.infix_rfl, .number ht⟩
  | @operation left right us vs op hleft hop hright ihleft ihright =>
    obtain rfl | hn := List.mem_cons.mp hn
    · exact ⟨us ++ op :: vs, List.infix_rfl, .operation hleft hop hright⟩
    obtain hn | hn := List.mem_append.mp hn
    · obtain ⟨ws, hws, hfrom⟩ := ihleft hn
      exact ⟨ws, hws.trans (List.prefix_append us _).isInfix, hfrom⟩
    · obtain ⟨ws, hws, hfrom⟩ := ihright hn
      have hvs : vs <:+: us ++ op :: vs := ⟨us ++ [op], [], by simp⟩
      exact ⟨ws, hws.trans hvs, hfrom⟩

lemma Stmt.ReadFrom.node {s : Stmt} {n : Expr} {us : List Token} (h : s.ReadFrom us)
    (hn : n ∈ s.exprs) : ∃ vs, vs <:+: us ∧ n.ReadFrom vs := by
  cases h with
  | greet hword hname => cases hn
  | @print word value us hword hvalue =>
    obtain ⟨vs, hvs, hfrom⟩ := hvalue.node hn
    exact ⟨vs, hvs.trans (List.suffix_cons word us).isInfix, hfrom⟩
  | evaluate hvalue => exact hvalue.node hn

lemma StmtsReadFrom.stmt {body : List Stmt} {s : Stmt} {ts : List Token}
    (h : StmtsReadFrom body ts) (hs : s ∈ body) : ∃ us, us <:+: ts ∧ s.ReadFrom us := by
  induction h with
  | nil => cases hs
  | @cons s' body us vs hs' hbody ih =>
    obtain rfl | hs := List.mem_cons.mp hs
    · exact ⟨us, (List.prefix_append us vs).isInfix, hs'⟩
    · obtain ⟨ws, hws, hfrom⟩ := ih hs
      exact ⟨ws, hws.trans (List.suffix_append us vs).isInfix, hfrom⟩

lemma Expr.isNormal_node {e n : Expr} (h : e.isNormal) (hn : n ∈ e.nodes) : n.isNormal := by
  induction e with
  | number span digits =>
    obtain rfl := List.mem_singleton.mp hn
    exact h
  | binary span op left right ihleft ihright =>
    obtain ⟨hleft, hright, -⟩ := isNormal_binary.mp h
    obtain rfl | hn := List.mem_cons.mp hn
    · exact h
    · exact (List.mem_append.mp hn).elim (ihleft hleft) (ihright hright)
  | foreign span node => cases h

lemma Stmt.isNormal_node {s : Stmt} {n : Expr} (h : s.isNormal) (hn : n ∈ s.exprs) :
    n.isNormal := by
  cases s with
  | print span value => exact Expr.isNormal_node h hn
  | evaluate span value => exact Expr.isNormal_node h hn
  | _ => cases hn

/-! ### Spans and the tokens they cover -/

/-- The tokens are not empty, and none starts before the one in front of it has ended. -/
structure InOrder (us : List Token) : Prop where
  proper : ∀ t ∈ us, t.span.Proper
  apart : us.Pairwise fun t u => t.span.stop.offset ≤ u.span.start.offset

lemma InOrder.of_sublist {us vs : List Token} (h : InOrder vs) (hus : us.Sublist vs) :
    InOrder us :=
  ⟨fun t ht => h.proper t (hus.subset ht), h.apart.sublist hus⟩

/-- The span runs from the start of the first token to the end of the last one. -/
def Span.Covers (span : Span) (us : List Token) : Prop :=
  ∃ first ∈ us.head?, ∃ last ∈ us.getLast?, span = ⟨first.span.start, last.span.stop⟩

lemma Expr.ReadFrom.covers {e : Expr} {us : List Token} (h : e.ReadFrom us) :
    e.span.Covers us := by
  induction h with
  | @number t ht => exact ⟨t, rfl, t, rfl, rfl⟩
  | @operation left right us vs op hleft hop hright ihleft ihright =>
    obtain ⟨first, hfirst, _, _, hl⟩ := ihleft
    obtain ⟨_, _, last, hlast, hr⟩ := ihright
    refine ⟨first, ?_, last, ?_, ?_⟩
    · rw [List.head?_append, hfirst]
      rfl
    · rw [List.getLast?_append, List.getLast?_cons, hlast]
      rfl
    · rw [Parser.operation, Expr.span, hl, hr]

lemma Stmt.ReadFrom.covers {s : Stmt} {us : List Token} (h : s.ReadFrom us) : s.span.Covers us := by
  cases h with
  | @greet word name hword hname => exact ⟨word, rfl, name, rfl, rfl⟩
  | @print word value us hword hvalue =>
    obtain ⟨_, _, last, hlast, hspan⟩ := hvalue.covers
    refine ⟨word, rfl, last, ?_, ?_⟩
    · rw [List.getLast?_cons, hlast]
      rfl
    · rw [Stmt.span, hspan]
  | evaluate hvalue => exact hvalue.covers

section

variable {span span' : Span} {us vs : List Token}

lemma Span.Covers.proper (h : span.Covers us) (hus : InOrder us) : span.Proper := by
  obtain ⟨first, hfirst, last, hlast, rfl⟩ := h
  obtain ⟨tail, rfl⟩ := List.head?_eq_some_iff.mp hfirst
  have hproper := hus.proper first List.mem_cons_self
  obtain rfl | hmem := List.mem_cons.mp (List.mem_of_getLast? hlast)
  · exact hproper
  · have hbefore := List.rel_of_pairwise_cons hus.apart hmem
    calc first.span.start.offset
        < first.span.stop.offset := hproper
      _ ≤ last.span.start.offset := hbefore
      _ < last.span.stop.offset := hus.proper last (List.mem_cons_of_mem _ hmem)

lemma Span.Covers.apart (h : span.Covers us) (h' : span'.Covers vs) (hus : InOrder (us ++ vs)) :
    span.stop.offset ≤ span'.start.offset := by
  obtain ⟨_, _, last, hlast, rfl⟩ := h
  obtain ⟨first, hfirst, _, _, rfl⟩ := h'
  obtain ⟨-, -, hbetween⟩ := List.pairwise_append.mp hus.apart
  exact hbetween last (List.mem_of_getLast? hlast) first (List.mem_of_head? hfirst)

/-- A token on its own is covered by its span. -/
lemma Span.Covers.token (t : Token) : t.span.Covers [t] := ⟨t, rfl, t, rfl, rfl⟩

end

/-! ### Spans of nodes -/

lemma Expr.ReadFrom.wellPlaced {e : Expr} {us : List Token} (h : e.ReadFrom us)
    (hus : InOrder us) : e.WellPlaced := by
  have hproper := h.covers.proper hus
  cases h with
  | number ht => exact hproper
  | @operation left right us vs op hleft hop hright =>
    refine ⟨hproper, rfl, rfl, ?_⟩
    calc left.span.stop.offset
        ≤ op.span.start.offset := hleft.covers.apart (.token op) (hus.of_sublist (by simp))
      _ < op.span.stop.offset := hus.proper op (by simp)
      _ ≤ right.span.start.offset :=
        (Span.Covers.token op).apart hright.covers (hus.of_sublist (List.sublist_append_right _ _))

lemma Stmt.ReadFrom.wellPlaced {s : Stmt} {us : List Token} (h : s.ReadFrom us)
    (hus : InOrder us) : s.WellPlaced := by
  have hproper := h.covers.proper hus
  cases h with
  | greet hword hname => exact hproper
  | @print word value us hword hvalue =>
    refine ⟨hproper, ?_, rfl⟩
    calc word.span.start.offset
        < word.span.stop.offset := hus.proper word List.mem_cons_self
      _ ≤ value.span.start.offset := (Span.Covers.token word).apart hvalue.covers hus
  | evaluate hvalue => exact ⟨hproper, rfl⟩

lemma StmtsReadFrom.apart {body : List Stmt} {ts : List Token} (h : StmtsReadFrom body ts)
    (hts : InOrder ts) : body.Pairwise fun s t => s.span.stop.offset ≤ t.span.start.offset := by
  induction h with
  | nil => exact .nil
  | @cons s body us vs hs hbody ih =>
    refine .cons ?_ (ih (hts.of_sublist (List.sublist_append_right us vs)))
    intro t ht
    obtain ⟨ws, ⟨before, after, rfl⟩, hfrom⟩ := hbody.stmt ht
    -- the tokens of `s` and of `t` stay in order when all that is between them is left out
    refine hs.covers.apart hfrom.covers (hts.of_sublist ?_)
    simp

/-! ### What a span cuts out -/

lemma located_inOrder {raw rest : List Char} {pieces : List Piece}
    (h : Division (uniform raw) pieces rest) : InOrder (located raw 0 pieces none) := by
  refine ⟨fun t ht => located_proper (k := 0) h t ht ?_, located_ordered⟩
  have hlexeme : t.lexeme ∈ pieces.map Prod.snd := by
    rw [← lexemes_located raw 0]
    exact List.mem_map_of_mem ht
  obtain ⟨piece, hpiece, heq⟩ := List.mem_map.mp hlexeme
  have hkind := (h.formed piece hpiece).kind_ne_eof
  rw [heq] at hkind
  exact hkind

lemma located_last {raw : List Char} {k : Nat} {pieces : List Piece} {last : Token}
    (h : last ∈ (located raw k pieces none).getLast?) :
    last.span.stop = .ofIndex raw (k + (spelled pieces).length) := by
  obtain rfl | ⟨pieces, ⟨gap, x⟩, rfl⟩ := List.eq_nil_or_concat' pieces
  · cases h
  · rw [located_append, located, located, Option.map_none, Option.toList_none,
      List.getLast?_concat] at h
    cases h
    simp [spelled, Nat.add_assoc]

/-- The pieces that a span covers are those of what it cuts out, without the gap in front. -/
lemma Span.Covers.divides {raw rest : List Char} {pieces : List Piece} {us : List Token}
    {span : Span} (hspan : span.Covers us) (h : Division (uniform raw) pieces rest)
    (hus : us <:+: located raw 0 pieces none) :
    ∃ own, Divides (uniform (span.cut raw)) own [] [] ∧ own.map Prod.snd = us.map Token.lexeme := by
  obtain ⟨before, own, after, rfl, rfl⟩ := located_infix hus
  obtain ⟨first, hfirst, last, hlast, rfl⟩ := hspan
  obtain ⟨middle, hbefore, hrest⟩ := h.of_append
  obtain ⟨tail, hown, -⟩ := hrest.of_append
  cases own with
  | nil => cases hfirst
  | cons piece own =>
    obtain ⟨gap, x⟩ := piece
    obtain ⟨more, rfl, -, hx, hends, hmore⟩ := hown.split
    have hown' : Division ([] ++ (x.spelling ++ more)) (([], x) :: own) tail :=
      .cons nofun hx hends hmore
    rw [List.nil_append] at hown'
    have htext : uniform raw = (spelled before ++ gap) ++ (spelled (([], x) :: own) ++ tail) := by
      rw [hbefore.text_eq_spelled, hown'.text_eq_spelled, List.append_assoc]
    have hstop : 0 + (spelled before).length + (spelled ((gap, x) :: own)).length =
        (spelled before ++ gap).length + (spelled (([], x) :: own)).length := by
      simp only [spelled_cons, List.length_append, List.length_nil]
      omega
    have hcut : uniform (Span.cut raw ⟨first.span.start, last.span.stop⟩) =
        spelled (([], x) :: own) := by
      rw [located_last hlast, hstop]
      cases hfirst
      rw [Nat.zero_add, ← List.length_append, cut_ofIndex raw (Nat.le_add_right _ _), htext,
        List.take_length_add_append, List.take_left, List.drop_left]
    refine ⟨([], x) :: own, ⟨?_, nofun, nofun⟩, ?_⟩
    · rw [hcut, ← List.append_nil (spelled _)]
      exact hown'.followed nofun
    · rw [lexemes_located]
      rfl

/-- A statement with the lexemes that a span covers is what the span cuts out. -/
lemma Span.Covers.cutOut {raw rest : List Char} {pieces : List Piece} {us : List Token} {s : Stmt}
    (hspan : s.span.Covers us) (h : Division (uniform raw) pieces rest)
    (hus : us <:+: located raw 0 pieces none) (hnormal : s.isNormal)
    (hlexemes : us.map Token.lexeme = s.lexemes) : s.CutOut raw := by
  intro file
  obtain ⟨own, hdivides, hown⟩ := hspan.divides h hus
  rw [← String.toList_ofList (l := s.span.cut raw)] at hdivides
  have hnormal' : (⟨default, [s]⟩ : Program).isNormal := by simpa [Program.isNormal] using hnormal
  have hlexemes' : (⟨default, [s]⟩ : Program).lexemes = own.map Prod.snd := by
    simp [Program.lexemes, hown, hlexemes]
  obtain ⟨q, hq, hbare⟩ := hdivides.parse file hnormal' hlexemes'
  exact ⟨q, hq, (Program.mk.inj hbare).2⟩

/-- Spans are nested as the nodes are, statements stand in order, and every statement and every
expression can be parsed again from what its span cuts out of the text. -/
theorem parse_places_nodes (text file : String) (p : Program)
    (h : Program.parse text file = .ok p) :
    (∀ s ∈ p.body, s.WellPlaced ∧ s.CutOut text.toList ∧
      ∀ e ∈ s.exprs, e.WellPlaced ∧ (Stmt.evaluate e.span e).CutOut text.toList) ∧
    p.body.Pairwise (fun s t => s.span.stop.offset ≤ t.span.start.offset) ∧
    p.span.start = ⟨-1, 1, 0⟩ ∧
    p.span.stop = (p.body.getLast?.map fun s => s.span.stop).getD p.span.start := by
  obtain ⟨pieces, gap, after, hdivides, hfrom⟩ := parse_pieces h
  have horder := located_inOrder hdivides.division
  obtain ⟨-, -, -, -, hspan⟩ := parse_traced h
  refine ⟨fun s hs => ?_, hfrom.body.apart horder, ?_⟩
  · obtain ⟨us, hus, hsFrom⟩ := hfrom.body.stmt hs
    have hregular : ∀ t ∈ us, t.Regular := fun t ht => hfrom.regular t (hus.subset ht)
    have hnormal := List.all_eq_true.mp hfrom.normal s hs
    refine ⟨hsFrom.wellPlaced (horder.of_sublist hus.sublist),
      hsFrom.covers.cutOut hdivides.division hus hnormal (hsFrom.lexemes hregular), ?_⟩
    intro e he
    obtain ⟨vs, hvs, heFrom⟩ := hsFrom.node he
    have hvsRegular : ∀ t ∈ vs, t.Regular := fun t ht => hregular t (hvs.subset ht)
    refine ⟨heFrom.wellPlaced (horder.of_sublist (hvs.trans hus).sublist), ?_⟩
    exact Span.Covers.cutOut (s := .evaluate e.span e) heFrom.covers hdivides.division
      (hvs.trans hus) (Stmt.isNormal_node hnormal he) (heFrom.lexemes hvsRegular)
  · rw [hspan]
    exact ⟨rfl, rfl⟩

/-- The right operand and the greeting each run over a line ending that is one logical character. -/
theorem parse_places_nodes_over_lines :
    let text := "print 2*3**\r\n4 hi\"a\r\nb\""
    let power : Expr := .binary ⟨⟨7, 1, 8⟩, ⟨13, 2, 1⟩⟩ .power
      (.number ⟨⟨7, 1, 8⟩, ⟨8, 1, 9⟩⟩ "3") (.number ⟨⟨12, 2, 0⟩, ⟨13, 2, 1⟩⟩ "4")
    let product : Expr := .binary ⟨⟨5, 1, 6⟩, ⟨13, 2, 1⟩⟩ .times
      (.number ⟨⟨5, 1, 6⟩, ⟨6, 1, 7⟩⟩ "2") power
    let printing := Stmt.print ⟨.start, ⟨13, 2, 1⟩⟩ product
    let greeting := Stmt.greet ⟨⟨14, 2, 2⟩, ⟨22, 3, 2⟩⟩ "a\nb"
    Program.parse text "" = .ok ⟨⟨.start, ⟨22, 3, 2⟩⟩, [printing, greeting]⟩ ∧
      printing.WellPlaced ∧ product.WellPlaced ∧ power.span.cut text.toList = "3**\r\n4".toList ∧
      (Stmt.evaluate power.span power).CutOut text.toList ∧ greeting.CutOut text.toList := by
  intro text power product printing greeting
  have h : Program.parse text "" = .ok ⟨⟨.start, ⟨22, 3, 2⟩⟩, [printing, greeting]⟩ := by
    decide +kernel
  obtain ⟨hnodes, -⟩ := parse_places_nodes text "" _ h
  obtain ⟨hprinting, -, hexprs⟩ := hnodes printing (by simp)
  obtain ⟨-, hgreeting, -⟩ := hnodes greeting (by simp)
  have hproduct : product ∈ printing.exprs := by decide
  have hpower : power ∈ printing.exprs := by decide
  exact ⟨h, hprinting, (hexprs product hproduct).1, by decide, (hexprs power hpower).2, hgreeting⟩

end HiToolchain
