import HiToolchain.Proofs.OutlineDecoding
import HiToolchain.Proofs.Pieces

/-!
# The canonical text of a parsed program identifies it

In the text of an expression every operation stands in parentheses and ends with its own closing
one, a number ends where its digits end, and a greeting ends with the quote that its name cannot
hold. So each statement shows where it ends, also where a name spans several lines, and a text
belongs to one program only, but for the spans.
-/

namespace HiToolchain

/-- Expressions as they are parsed: numbers have digits, and operations are arithmetic. -/
inductive Expr.Parsed : Expr → Prop
  | number {span : Span} {digits : String} (hne : digits.toList ≠ [])
      (hdigits : ∀ ch ∈ digits.toList, isDigit ch) : Expr.Parsed (.number span digits)
  | binary {span : Span} {op : TokenKind} {left right : Expr} (hop : op.isOperator)
      (hleft : left.Parsed) (hright : right.Parsed) : Expr.Parsed (.binary span op left right)

/-- Statements as they are parsed: a name holds no quote. -/
inductive Stmt.Parsed : Stmt → Prop
  | greet {span : Span} {name : String} (hname : '"' ∉ name.toList) : Stmt.Parsed (.greet span name)
  | print {span : Span} {value : Expr} (hvalue : value.Parsed) : Stmt.Parsed (.print span value)
  | evaluate {span : Span} {value : Expr} (hvalue : value.Parsed) :
      Stmt.Parsed (.evaluate span value)

lemma Expr.parsed_of_formed {e : Expr} (hnormal : e.isNormal)
    (hformed : ∀ x ∈ e.lexemes, Lexeme.Formed x) : e.Parsed := by
  induction e with
  | number span digits =>
    have hnumber := hformed (.number, digits) (by simp [Expr.lexemes])
    cases hnumber with
    | number hne hdigits => exact .number hne hdigits
    | operator hop => cases hop
  | binary span op left right ihleft ihright =>
    obtain ⟨hleft, hright, hoperation⟩ := isNormal_binary.mp hnormal
    refine .binary hoperation.isOperator (ihleft hleft ?_) (ihright hright ?_)
    · exact fun x hx => hformed x (by simp [Expr.lexemes, hx])
    · exact fun x hx => hformed x (by simp [Expr.lexemes, hx])
  | foreign span node => cases hnormal

lemma Stmt.parsed_of_formed {s : Stmt} (hnormal : s.isNormal)
    (hformed : ∀ x ∈ s.lexemes, Lexeme.Formed x) : s.Parsed := by
  cases s with
  | greet span name =>
    have hstring := hformed (.string, name) (by simp [Stmt.lexemes])
    cases hstring with
    | string htext => exact .greet fun hmem => (htext _ hmem).1 rfl
    | operator hop => cases hop
  | print span value =>
    exact .print (Expr.parsed_of_formed hnormal fun x hx => hformed x (by simp [Stmt.lexemes, hx]))
  | evaluate span value => exact .evaluate (Expr.parsed_of_formed hnormal hformed)
  | foreign span node => cases hnormal

lemma parse_parsed {text file : String} {p : Program} (h : Program.parse text file = .ok p) :
    ∀ s ∈ p.body, s.Parsed := by
  obtain ⟨pieces, gap, after, hdivides, hread⟩ := parse_pieces h
  intro s hs
  refine Stmt.parsed_of_formed (List.all_eq_true.mp hread.normal s hs) fun x hx => ?_
  have hmem : x ∈ p.lexemes := List.mem_flatMap.mpr ⟨s, hs, hx⟩
  rw [hread.lexemes] at hmem
  obtain ⟨piece, hpiece, rfl⟩ := List.mem_map.mp hmem
  exact hdivides.division.formed piece hpiece

/-! ### Expressions -/

lemma toList_text_binary (span : Span) (op : TokenKind) (left right : Expr) :
    (Expr.binary span op left right).text.toList =
      '(' :: (left.text.toList ++ ' ' ::
        (op.name.toList ++ ' ' :: (right.text.toList ++ [')']))) := by
  simp [Expr.text, String.toList_append]

/-- The text of an expression starts with a digit or with a parenthesis. -/
lemma Expr.Parsed.head_text {e : Expr} (h : e.Parsed) :
    ∃ ch more, e.text.toList = ch :: more ∧ (isDigit ch ∨ ch = '(') := by
  cases h with
  | number hne hdigits =>
    obtain ⟨ch, more, htext⟩ := List.exists_cons_of_ne_nil hne
    exact ⟨ch, more, htext, .inl (hdigits ch (by simp [htext]))⟩
  | binary hop hleft hright => exact ⟨'(', _, toList_text_binary _ _ _ _, .inr rfl⟩

lemma name_append_inj {op op' : TokenKind} (hop : op.isOperator) (hop' : op'.isOperator)
    {s t : List Char} (h : op.name.toList ++ ' ' :: s = op'.name.toList ++ ' ' :: t) :
    op = op' ∧ s = t := by
  have hspace : ∀ k : TokenKind, k.isOperator → ' ' ∉ k.name.toList := by
    intro k hk
    cases k <;> first | decide | cases hk
  have hname : op.name = op'.name := by
    rw [← String.toList_inj, ← takeWhile_ne_append (hspace op hop) s, h,
      takeWhile_ne_append (hspace op' hop')]
  refine ⟨?_, ?_⟩
  · exact Option.some.inj (by rw [← TokenKind.ofName?_name, hname, TokenKind.ofName?_name])
  · rw [hname] at h
    exact (List.cons.inj (List.append_cancel_left h)).2

/-- Two expressions that start one text, where no digit follows, are the same but for their
spans. -/
lemma Expr.Parsed.text_unique {e e' : Expr} (he : e.Parsed) (he' : e'.Parsed) {s t : List Char}
    (hs : ∀ ch ∈ s.head?, isDigit ch = false) (ht : ∀ ch ∈ t.head?, isDigit ch = false)
    (h : e.text.toList ++ s = e'.text.toList ++ t) : e.bare = e'.bare ∧ s = t := by
  induction he generalizing e' s t with
  | @number span digits hne hdigits =>
    cases he' with
    | @number span' digits' hne' hdigits' =>
      have hsame : digits.toList = digits'.toList := by
        rw [← takeWhile_append_of_head hdigits hs, ← takeWhile_append_of_head hdigits' ht]
        exact congrArg _ h
      obtain rfl := String.toList_inj.mp hsame
      exact ⟨rfl, List.append_cancel_left h⟩
    | binary hop' hleft' hright' =>
      obtain ⟨d, more, hmore⟩ := List.exists_cons_of_ne_nil hne
      rw [toList_text_binary, Expr.text, hmore] at h
      have hd := hdigits d (by simp [hmore])
      rw [(List.cons.inj h).1] at hd
      cases hd
  | @binary span op left right hop hleft hright ihleft ihright =>
    cases he' with
    | @number span' digits' hne' hdigits' =>
      obtain ⟨d, more, hmore⟩ := List.exists_cons_of_ne_nil hne'
      rw [toList_text_binary, Expr.text, hmore] at h
      have hd := hdigits' d (by simp [hmore])
      rw [← (List.cons.inj h).1] at hd
      cases hd
    | @binary span' op' left' right' hop' hleft' hright' =>
      simp only [toList_text_binary, List.cons_append, List.append_assoc, List.cons.injEq,
        true_and, List.nil_append] at h
      obtain ⟨hl, hmiddle⟩ := ihleft hleft' (by simp [isDigit]) (by simp [isDigit]) h
      obtain ⟨hname, hend⟩ := name_append_inj hop hop' (List.cons.inj hmiddle).2
      obtain ⟨hr, hrest⟩ := ihright hright' (by simp [isDigit]) (by simp [isDigit]) hend
      exact ⟨by rw [Expr.bare, Expr.bare, hl, hname, hr], (List.cons.inj hrest).2⟩

/-! ### Statements -/

/-- What follows a statement: nothing, or the line after it. -/
def EndsLine (text : List Char) : Prop := ∀ ch ∈ text.head?, ch = '\n'

lemma EndsLine.notDigit {text : List Char} (h : EndsLine text) :
    ∀ ch ∈ text.head?, isDigit ch = false := by
  intro ch hch
  rw [h ch hch]
  rfl

/-- The statement that a text starts with is told by the first character. -/
lemma Stmt.Parsed.text_cases {s : Stmt} (h : s.Parsed) :
    (∃ name, s.bare = .greet default name ∧ '"' ∉ name.toList ∧
      s.text.toList = "hi \"".toList ++ (name.toList ++ ['"'])) ∨
    (∃ e : Expr, s.bare = .print default e.bare ∧ e.Parsed ∧
      s.text.toList = "print ".toList ++ e.text.toList) ∨
    (∃ e : Expr, s.bare = .evaluate default e.bare ∧ e.Parsed ∧ s.text.toList = e.text.toList) := by
  cases h with
  | @greet span name hname =>
    exact .inl ⟨name, rfl, hname, by simp [Stmt.text, String.toList_append]⟩
  | @print span value hvalue =>
    exact .inr (.inl ⟨value, rfl, hvalue, by simp [Stmt.text, String.toList_append]⟩)
  | @evaluate span value hvalue => exact .inr (.inr ⟨value, rfl, hvalue, rfl⟩)

/-- An expression starts like no other statement. -/
lemma Expr.Parsed.text_ne {e : Expr} (h : e.Parsed) {ch : Char} {more s : List Char}
    (hch : ch = 'h' ∨ ch = 'p') : e.text.toList ++ s ≠ ch :: more := by
  obtain ⟨c, rest, htext, hc⟩ := h.head_text
  rw [htext]
  intro heq
  rw [(List.cons.inj heq).1] at hc
  obtain rfl | rfl := hch <;> exact absurd hc (by decide)

lemma Stmt.Parsed.text_unique {s s' : Stmt} (hs : s.Parsed) (hs' : s'.Parsed) {u v : List Char}
    (hu : EndsLine u) (hv : EndsLine v) (h : s.text.toList ++ u = s'.text.toList ++ v) :
    s.bare = s'.bare ∧ u = v := by
  obtain ⟨name, hbare, hname, htext⟩ | ⟨e, hbare, he, htext⟩ | ⟨e, hbare, he, htext⟩ :=
    hs.text_cases
  · obtain ⟨name', hbare', hname', htext'⟩ | ⟨e', -, -, htext'⟩ | ⟨e', -, he', htext'⟩ :=
      hs'.text_cases
    · simp only [htext, htext', List.append_assoc] at h
      have hnames := List.append_cancel_left h
      have hsame : name.toList = name'.toList := by
        rw [← takeWhile_ne_append hname u, ← takeWhile_ne_append hname' v]
        exact congrArg _ hnames
      obtain rfl := String.toList_inj.mp hsame
      refine ⟨by rw [hbare, hbare'], ?_⟩
      exact (List.cons.inj (List.append_cancel_left hnames)).2
    · rw [htext, htext'] at h
      cases h
    · rw [htext, htext'] at h
      exact (he'.text_ne (.inl rfl) h.symm).elim
  · obtain ⟨name', -, -, htext'⟩ | ⟨e', hbare', he', htext'⟩ | ⟨e', -, he', htext'⟩ :=
      hs'.text_cases
    · rw [htext, htext'] at h
      cases h
    · rw [htext, htext', List.append_assoc, List.append_assoc] at h
      obtain ⟨hvalue, hrest⟩ := he.text_unique he' hu.notDigit hv.notDigit
        (List.append_cancel_left h)
      exact ⟨by rw [hbare, hbare', hvalue], hrest⟩
    · rw [htext, htext'] at h
      exact (he'.text_ne (.inr rfl) h.symm).elim
  · obtain ⟨name', -, -, htext'⟩ | ⟨e', -, -, htext'⟩ | ⟨e', hbare', he', htext'⟩ :=
      hs'.text_cases
    · rw [htext, htext'] at h
      exact (he.text_ne (.inl rfl) h).elim
    · rw [htext, htext'] at h
      exact (he.text_ne (.inr rfl) h).elim
    · rw [htext, htext'] at h
      obtain ⟨hvalue, hrest⟩ := he.text_unique he' hu.notDigit hv.notDigit h
      exact ⟨by rw [hbare, hbare', hvalue], hrest⟩

/-! ### Programs -/

/-- Statements with a line feed before each of them. -/
def linesOf (body : List Stmt) : List Char :=
  body.flatMap fun s => '\n' :: s.text.toList

lemma endsLine_linesOf (body : List Stmt) : EndsLine (linesOf body) := by
  cases body with
  | nil => simp [EndsLine, linesOf]
  | cons s body => simp [EndsLine, linesOf]

lemma toList_text_cons (span : Span) (s : Stmt) (body : List Stmt) :
    (⟨span, s :: body⟩ : Program).text.toList = s.text.toList ++ linesOf body := by
  rw [Program.text, String.toList_intercalate, List.map_map]
  induction body generalizing s with
  | nil => simp [linesOf]
  | cons t body ih =>
    have hrest := ih t
    simp only [List.map_cons, Function.comp_apply] at hrest ⊢
    rw [List.intercalate_cons_cons, hrest]
    simp [linesOf]

lemma linesOf_inj {body body' : List Stmt} (hbody : ∀ s ∈ body, s.Parsed)
    (hbody' : ∀ s ∈ body', s.Parsed) (h : linesOf body = linesOf body') :
    body.map Stmt.bare = body'.map Stmt.bare := by
  induction body generalizing body' with
  | nil =>
    cases body' with
    | nil => rfl
    | cons s' body' => simp [linesOf] at h
  | cons s body ih =>
    cases body' with
    | nil => simp [linesOf] at h
    | cons s' body' =>
      obtain ⟨hs, hbody⟩ := List.forall_mem_cons.mp hbody
      obtain ⟨hs', hbody'⟩ := List.forall_mem_cons.mp hbody'
      simp only [linesOf, List.flatMap_cons, List.cons_append, List.cons.injEq, true_and] at h
      obtain ⟨hbare, hrest⟩ := hs.text_unique hs' (endsLine_linesOf body) (endsLine_linesOf body') h
      rw [List.map_cons, List.map_cons, hbare, ih hbody hbody' hrest]

/-- A program without statements is the only one with an empty text. -/
lemma cons_text_eq_linesOf {p : Program} (h : ∀ s ∈ p.body, s.Parsed) :
    linesOf p.body = if p.text = "" then [] else '\n' :: p.text.toList := by
  obtain ⟨span, body⟩ := p
  cases body with
  | nil => rfl
  | cons s body =>
    have hne : (⟨span, s :: body⟩ : Program).text ≠ "" := by
      rw [Ne, ← String.toList_eq_nil_iff, toList_text_cons]
      obtain ⟨name, -, -, htext⟩ | ⟨e, -, -, htext⟩ | ⟨e, -, he, htext⟩ :=
        (h s List.mem_cons_self).text_cases
      · simp [htext]
      · simp [htext]
      · obtain ⟨ch, more, hmore, -⟩ := he.head_text
        simp [htext, hmore]
    rw [if_neg hne, toList_text_cons]
    simp [linesOf]

lemma Expr.text_bare (e : Expr) : e.bare.text = e.text := by
  induction e with
  | binary span op left right ihleft ihright =>
    rw [Expr.bare, Expr.text, Expr.text, ihleft, ihright]
  | _ => rfl

lemma Stmt.text_bare (s : Stmt) : s.bare.text = s.text := by
  cases s <;> simp [Stmt.bare, Stmt.text, Expr.text_bare]

lemma Program.text_bare (p : Program) : p.bare.text = p.text := by
  simp [Program.bare, Program.text, Function.comp_def, Stmt.text_bare]

/-- Two programs that were parsed have one canonical text exactly if they are the same but for
their spans: statement by statement, with the same names and digits, and with the operands of each
operation on the same sides. -/
theorem canonical_text_identifies_program (text file text' file' : String) (p q : Program)
    (hp : Program.parse text file = .ok p) (hq : Program.parse text' file' = .ok q) :
    p.text = q.text ↔ p.bare = q.bare := by
  constructor
  · intro h
    have hlines : linesOf p.body = linesOf q.body := by
      rw [cons_text_eq_linesOf (parse_parsed hp), cons_text_eq_linesOf (parse_parsed hq), h]
    rw [Program.bare, Program.bare, linesOf_inj (parse_parsed hp) (parse_parsed hq) hlines]
  · intro h
    rw [← Program.text_bare p, h, Program.text_bare]

/-- A name that reads like the rest of a program, and the program that it reads like. -/
theorem canonical_text_of_name_over_lines :
    ∃ p q, Program.parse "hi \"a\nprint 1\"" "" = .ok p ∧
      Program.parse "hi \"a\" print 1" "" = .ok q ∧ p.bare ≠ q.bare ∧ p.text ≠ q.text := by
  have hp : ∃ p, Program.parse "hi \"a\nprint 1\"" "" = .ok p ∧ p.body.length = 1 :=
    ⟨⟨⟨⟨-1, 1, 0⟩, ⟨13, 2, 8⟩⟩, [.greet ⟨⟨-1, 1, 0⟩, ⟨13, 2, 8⟩⟩ "a\nprint 1"]⟩,
      by decide +kernel, rfl⟩
  have hq : ∃ q, Program.parse "hi \"a\" print 1" "" = .ok q ∧ q.body.length = 2 :=
    ⟨⟨⟨⟨-1, 1, 0⟩, ⟨13, 1, 14⟩⟩, [.greet ⟨⟨-1, 1, 0⟩, ⟨5, 1, 6⟩⟩ "a",
      .print ⟨⟨6, 1, 7⟩, ⟨13, 1, 14⟩⟩ (.number ⟨⟨12, 1, 13⟩, ⟨13, 1, 14⟩⟩ "1")]⟩,
      by decide +kernel, rfl⟩
  obtain ⟨p, hp, hone⟩ := hp
  obtain ⟨q, hq, htwo⟩ := hq
  have hbare : p.bare ≠ q.bare := by
    intro h
    have hlength := congrArg (fun r : Program => r.body.length) h
    simp [Program.bare, hone, htwo] at hlength
  refine ⟨p, q, hp, hq, hbare, ?_⟩
  rw [Ne, canonical_text_identifies_program _ _ _ _ p q hp hq]
  exact hbare

end HiToolchain
