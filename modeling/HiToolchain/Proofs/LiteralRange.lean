import HiToolchain.Outline
import HiToolchain.Proofs.Rejection
import HiToolchain.Proofs.Rounding
import HiToolchain.Proofs.TreeTokens
import HiToolchain.Visit

/-!
# Literals out of range

A program that was read from a text holds no node that a walk cannot handle and no operator without
a meaning, so the only thing that can go wrong is a number too great for a finite value. The
numbers of its tree are those of the text in the same order, and every walk that needs their values
takes them in this order, so it ends at the first one out of range.
-/

namespace HiToolchain

def Token.isNumber (t : Token) : Bool := t.kind = .number

/-- A number whose digits denote an integer from half a unit above the greatest value on. -/
def Token.isOutOfRange (t : Token) : Bool :=
  t.isNumber && twoTo 1024 - twoTo 970 ≤ digitsValue t.value.toList

/-- The fault of a number that has no value. -/
def Token.literalFault (t : Token) : WalkFault := .evaluation ⟨.malformedNumber t.value, t.span⟩

/-- The numbers from left to right, as the tokens they were read from. -/
def Expr.numbers : Expr → List Token
  | number span digits => [⟨.number, digits, span⟩]
  | binary _ _ left right => left.numbers ++ right.numbers
  | foreign .. => []

def Stmt.numbers : Stmt → List Token
  | greet .. => []
  | print _ value => value.numbers
  | evaluate _ value => value.numbers
  | foreign .. => []

def Program.numbers (p : Program) : List Token := p.body.flatMap Stmt.numbers

/-! ### The numbers of a tree are those of its text -/

lemma filter_cons_of_kind {t : Token} (ht : t.kind ≠ .number) (rest : List Token) :
    (t :: rest).filter Token.isNumber = rest.filter Token.isNumber := by
  have hnot : ¬ t.isNumber := by simpa [Token.isNumber] using ht
  exact List.filter_cons_of_neg hnot

lemma Expr.ReadFrom.numbers {e : Expr} {us : List Token} (h : e.ReadFrom us) :
    us.filter Token.isNumber = e.numbers := by
  induction h with
  | @number t ht =>
    have hnumber : t.isNumber := by simpa [Token.isNumber] using ht
    rw [List.filter_cons_of_pos hnumber, Expr.numbers, ← ht]
    rfl
  | @operation left right us vs op hleft hop hright ihleft ihright =>
    have hkind : op.kind ≠ .number := by
      intro hnumber
      rw [hnumber] at hop
      cases hop
    rw [List.filter_append, filter_cons_of_kind hkind, ihleft, ihright]
    rfl

lemma Stmt.ReadFrom.numbers {s : Stmt} {us : List Token} (h : s.ReadFrom us) :
    us.filter Token.isNumber = s.numbers := by
  cases h with
  | greet hword hname =>
    rw [filter_cons_of_kind (by simp [hword]), filter_cons_of_kind (by simp [hname])]
    rfl
  | print hword hvalue => rw [filter_cons_of_kind (by simp [hword]), hvalue.numbers, Stmt.numbers]
  | evaluate hvalue => exact hvalue.numbers

lemma StmtsReadFrom.numbers {body : List Stmt} {ts : List Token} (h : StmtsReadFrom body ts) :
    ts.filter Token.isNumber = body.flatMap Stmt.numbers := by
  induction h with
  | nil => rfl
  | cons hs hbody ih => rw [List.filter_append, hs.numbers, ih, List.flatMap_cons]

section

variable {text file : String} {p : Program}

/-- What a text is parsed to is in normal form and holds the numbers of the text in order. -/
lemma parse_numbers (h : Program.parse text file = .ok p) :
    p.isNormal ∧ p.numbers = (Cursor.ofText text file).tokens.1.1.filter Token.isNumber := by
  obtain ⟨ts, last, htokens, hbody, -⟩ := parse_traced h
  obtain ⟨hlast, -⟩ := kind_of_tokens htokens
  refine ⟨(parse_reads htokens h).1, ?_⟩
  rw [htokens, List.filter_append, hbody.numbers, filter_cons_of_kind (by simp [hlast])]
  exact (List.append_nil _).symm

end

/-! ### Walks that need no values -/

/-- Trees in normal form have no node that a walk cannot handle. -/
lemma Expr.outline_ok {e : Expr} (h : e.isNormal) : ∃ doc, e.outline = .ok doc := by
  induction e with
  | number span digits => exact ⟨_, rfl⟩
  | binary span op left right ihleft ihright =>
    obtain ⟨hleft, hright, -⟩ := isNormal_binary.mp h
    obtain ⟨l, hl⟩ := ihleft hleft
    obtain ⟨r, hr⟩ := ihright hright
    refine ⟨nodeDoc .binary [("op", .scalar op.name), ("left", l), ("right", r)], ?_⟩
    rw [Expr.outline, hl, ok_bind, hr, ok_bind]
    rfl
  | foreign span node => cases h

lemma Stmt.outline_ok {s : Stmt} (h : s.isNormal) : ∃ doc, s.outline = .ok doc := by
  cases s with
  | greet span name => exact ⟨_, rfl⟩
  | print span value | evaluate span value =>
    obtain ⟨doc, hdoc⟩ := Expr.outline_ok h
    rw [Stmt.outline, hdoc]
    exact ⟨_, rfl⟩
  | foreign span node => cases h

lemma mapM_ok {ε α β : Type} {f : α → Except ε β} {xs : List α} (h : ∀ x ∈ xs, ∃ b, f x = .ok b) :
    ∃ bs, xs.mapM f = .ok bs := by
  induction xs with
  | nil => exact ⟨[], rfl⟩
  | cons x xs ih =>
    obtain ⟨⟨b, hb⟩, hxs⟩ := List.forall_mem_cons.mp h
    obtain ⟨bs, hbs⟩ := ih hxs
    refine ⟨b :: bs, ?_⟩
    rw [List.mapM_cons, hb, ok_bind, hbs]
    rfl

lemma Program.outline_ok {p : Program} (h : p.isNormal) : ∃ doc, p.outline = .ok doc := by
  obtain ⟨docs, hdocs⟩ := mapM_ok fun s hs => Stmt.outline_ok (List.all_eq_true.mp h s hs)
  rw [Program.outline, hdocs]
  exact ⟨_, rfl⟩

section

variable (opens : NodeKind → Bool)

lemma enter_ok (kind : NodeKind) (text : String) {inside : Visit.Walk}
    (h : ∃ r, inside = .ok r) : ∃ r, Visit.enter opens kind text inside = .ok r := by
  obtain ⟨r, rfl⟩ := h
  unfold Visit.enter
  split <;> exact ⟨_, rfl⟩

lemma Expr.visit_ok {e : Expr} (h : e.isNormal) : ∃ r, e.visit opens = .ok r := by
  induction e with
  | number span digits => exact enter_ok opens _ _ ⟨_, rfl⟩
  | binary span op left right ihleft ihright =>
    obtain ⟨hleft, hright, -⟩ := isNormal_binary.mp h
    obtain ⟨l, hl⟩ := ihleft hleft
    obtain ⟨r, hr⟩ := ihright hright
    refine enter_ok opens _ _ ?_
    rw [hl, ok_bind, hr]
    exact ⟨_, rfl⟩
  | foreign span node => cases h

lemma Stmt.visit_ok {s : Stmt} (h : s.isNormal) : ∃ r, s.visit opens = .ok r := by
  cases s with
  | greet span name => exact enter_ok opens _ _ ⟨_, rfl⟩
  | print span value | evaluate span value =>
    refine enter_ok opens _ _ ?_
    obtain ⟨r, hr⟩ := Expr.visit_ok opens h
    rw [hr]
    exact ⟨_, rfl⟩
  | foreign span node => cases h

lemma visitStmts_ok {body : List Stmt} (h : ∀ s ∈ body, s.isNormal) :
    ∃ r, visitStmts opens body = .ok r := by
  induction body with
  | nil => exact ⟨_, rfl⟩
  | cons s body ih =>
    obtain ⟨hs, hbody⟩ := List.forall_mem_cons.mp h
    obtain ⟨r, hr⟩ := Stmt.visit_ok opens hs
    obtain ⟨rest, hrest⟩ := ih hbody
    rw [visitStmts, hr, ok_bind, hrest]
    exact ⟨_, rfl⟩

lemma Program.visit_ok {p : Program} (h : p.isNormal) : ∃ r, p.visit opens = .ok r := by
  refine enter_ok opens _ _ ?_
  obtain ⟨r, hr⟩ := visitStmts_ok opens (List.all_eq_true.mp h)
  rw [hr]
  exact ⟨_, rfl⟩

end

/-! ### Walks that take the values of numbers -/

/-- A walk over these numbers fails at the first one out of range, and else succeeds. -/
inductive StopsAtFirst {α : Type} (ns : List Token) : Except WalkFault α → Prop
  | ok (a : α) (h : ns.find? Token.isOutOfRange = none) : StopsAtFirst ns (.ok a)
  | error (t : Token) (h : ns.find? Token.isOutOfRange = some t) :
      StopsAtFirst ns (.error t.literalFault)

section

variable {α β : Type} {ns ms : List Token} {x : Except WalkFault α}

lemma StopsAtFirst.bind {f : α → Except WalkFault β} (hx : StopsAtFirst ns x)
    (hf : ∀ a, StopsAtFirst ms (f a)) : StopsAtFirst (ns ++ ms) (x >>= f) := by
  cases hx with
  | error t h => exact .error t (by rw [List.find?_append, h]; rfl)
  | ok a h =>
    have hfind : (ns ++ ms).find? Token.isOutOfRange = ms.find? Token.isOutOfRange := by
      rw [List.find?_append, h, Option.none_or]
    have hfa := hf a
    rw [ok_bind]
    generalize f a = y at hfa
    cases hfa with
    | ok b h' => exact .ok b (hfind.trans h')
    | error t h' => exact .error t (hfind.trans h')

lemma StopsAtFirst.map {f : α → β} (hx : StopsAtFirst ns x) :
    StopsAtFirst ns (x >>= fun a => .ok (f a)) := by
  have hbind := hx.bind fun a => StopsAtFirst.ok (f a) List.find?_nil
  rwa [List.append_nil] at hbind

end

lemma Literal.value?_eq_none_iff {digits : String} (h : Literal.isDigits digits) :
    Literal.value? digits = none ↔
      twoTo 1024 - twoTo 970 ≤ digitsValue digits.toList := by
  have hfinite := Binary64.ofRatio_finite_iff false (digitsValue digits.toList) Nat.one_pos
  rw [Nat.mul_one] at hfinite
  rw [← not_lt, ← hfinite, Literal.value?, if_pos h, Binary64.ofNat]
  cases Binary64.ofRatio false (digitsValue digits.toList) 1 with
  | nan => exact iff_of_true rfl fun ⟨_, _, _, hnan⟩ => nomatch hnan
  | infinity s => exact iff_of_true rfl fun ⟨_, _, _, hinfinity⟩ => nomatch hinfinity
  | finite s m q => exact iff_of_false (fun hnone => nomatch hnone) fun hno => hno ⟨s, m, q, rfl⟩

lemma isOutOfRange_iff {digits : String} (h : Literal.isDigits digits) (span : Span) :
    Token.isOutOfRange ⟨.number, digits, span⟩ ↔ Literal.value? digits = none := by
  rw [Literal.value?_eq_none_iff h, Token.isOutOfRange, Bool.and_eq_true, decide_eq_true_eq]
  exact and_iff_right rfl

lemma Literal.value_stopsAtFirst {digits : String} (h : Literal.isDigits digits) (span : Span) :
    StopsAtFirst [⟨.number, digits, span⟩]
      ((Literal.value digits span).mapError .evaluation) := by
  have hout := isOutOfRange_iff h span
  unfold Literal.value
  cases hvalue : Literal.value? digits with
  | none => exact .error _ (List.find?_cons_of_pos (hout.mpr hvalue))
  | some v =>
    have hin : ¬ Token.isOutOfRange ⟨.number, digits, span⟩ := by
      rw [hout, hvalue]
      exact Option.some_ne_none v
    exact .ok v (List.find?_cons_of_neg hin)

lemma operation?_of_isOperator [Elementary] {op : TokenKind} (h : op.isOperator) :
    ∃ f, op.operation? = some f := by
  cases op <;> first | exact ⟨_, rfl⟩ | cases h

lemma Expr.eval_stopsAtFirst [Elementary] {e : Expr} (hnormal : e.isNormal)
    (hdigits : ∀ t ∈ e.numbers, Literal.isDigits t.value) : StopsAtFirst e.numbers e.eval := by
  induction e with
  | number span digits =>
    have hnumber : Literal.isDigits digits := hdigits ⟨.number, digits, span⟩ List.mem_cons_self
    rw [Expr.numbers, Expr.eval]
    exact Literal.value_stopsAtFirst hnumber span
  | binary span op left right ihleft ihright =>
    obtain ⟨hleft, hright, hoperation⟩ := isNormal_binary.mp hnormal
    obtain ⟨hdleft, hdright⟩ := List.forall_mem_append.mp hdigits
    obtain ⟨f, hf⟩ := operation?_of_isOperator hoperation.isOperator
    rw [Expr.eval, hf, Expr.numbers]
    exact (ihleft hleft hdleft).bind fun x => (ihright hright hdright).map
  | foreign span node => cases hnormal

lemma Stmt.line_stopsAtFirst [Elementary] {s : Stmt} (hnormal : s.isNormal)
    (hdigits : ∀ t ∈ s.numbers, Literal.isDigits t.value) : StopsAtFirst s.numbers s.line? := by
  cases s with
  | greet span name => exact .ok _ rfl
  | print span value => exact (Expr.eval_stopsAtFirst hnormal hdigits).map
  | evaluate span value => exact (Expr.eval_stopsAtFirst hnormal hdigits).map
  | foreign span node => cases hnormal

/-! ### Running statement by statement -/

/-- The run of `body` ends at the statement that holds the number `t`, with the output of the
statements before it. -/
def EndsAtNumber [Elementary] (body : List Stmt) (t : Token) : Prop :=
  ∃ before s after, body = before ++ s :: after ∧ t ∈ s.numbers ∧
    runStmts none before = ((runStmts none body).1, none) ∧
    (runStmts none body).2 = some (.walk t.literalFault)

lemma EndsAtNumber.cons [Elementary] {s : Stmt} {line : Option String} {body : List Stmt}
    {t : Token} (hline : s.line? = .ok line) (h : EndsAtNumber body t) :
    EndsAtNumber (s :: body) t := by
  obtain ⟨before, s', after, rfl, ht, hbefore, hfault⟩ := h
  refine ⟨s :: before, s', after, rfl, ht, ?_, ?_⟩
  · rw [runStmts_of_line hline, runStmts_of_line hline, hbefore]
  · rw [runStmts_of_line hline]
    exact hfault

lemma runStmts_numbers [Elementary] {body : List Stmt} (hnormal : ∀ s ∈ body, s.isNormal)
    (hdigits : ∀ t ∈ body.flatMap Stmt.numbers, Literal.isDigits t.value) :
    ((body.flatMap Stmt.numbers).find? Token.isOutOfRange = none →
      (runStmts none body).2 = none) ∧
    ∀ t, (body.flatMap Stmt.numbers).find? Token.isOutOfRange = some t → EndsAtNumber body t := by
  induction body with
  | nil => exact ⟨fun _ => rfl, fun t ht => nomatch ht⟩
  | cons s body ih =>
    rw [List.flatMap_cons] at hdigits ⊢
    obtain ⟨hs, hbody⟩ := List.forall_mem_cons.mp hnormal
    obtain ⟨hdigits₁, hdigits₂⟩ := List.forall_mem_append.mp hdigits
    have hstops := Stmt.line_stopsAtFirst hs hdigits₁
    rw [List.find?_append]
    generalize hline : s.line? = outcome at hstops
    cases hstops with
    | error t hfirst =>
      rw [hfirst, Option.some_or]
      refine ⟨(nomatch ·), ?_⟩
      rintro _ ⟨rfl⟩
      have hrun := runStmts_of_fault hline body
      refine ⟨[], s, body, rfl, List.mem_of_find?_eq_some hfirst, ?_, ?_⟩
      · rw [hrun]
        rfl
      · rw [hrun]
    | ok line hnone =>
      rw [hnone, Option.none_or, runStmts_of_line hline]
      obtain ⟨hends, hfails⟩ := ih hbody hdigits₂
      exact ⟨hends, fun t ht => EndsAtNumber.cons hline (hfails t ht)⟩

lemma Token.Regular.isDigits {t : Token} (h : t.Regular) (hnumber : t.isNumber) :
    Literal.isDigits t.value := by
  have hkind : t.kind = .number := by simpa [Token.isNumber] using hnumber
  unfold Token.Regular at h
  rw [hkind] at h
  obtain ⟨hne, hall⟩ := h
  have hempty : t.value.isEmpty = false := by
    rw [Bool.eq_false_iff]
    intro hempty
    exact hne (by rw [String.isEmpty_iff.mp hempty]; rfl)
  rw [Literal.isDigits, hempty, Bool.not_false, Bool.true_and]
  exact List.all_eq_true.mpr hall

/-- A program that was read from a text has a document, and a walk that is opened for any kinds of
node goes through it. It runs and can be lowered if no number of the text is out of range. Otherwise
both fail at the first such number, with its digits and its place, after the output of the
statements before the one that holds it. -/
theorem parsed_text_fails_only_out_of_range [Elementary] (text file : String) (p : Program)
    (h : Program.parse text file = .ok p) :
    let ts := (Cursor.ofText text file).tokens.1.1
    (∃ doc, p.outline = .ok doc) ∧ (∀ opens, ∃ r, p.visit opens = .ok r) ∧
    (ts.find? Token.isOutOfRange = none → p.run.2 = none ∧ ∃ m, p.lower = .ok m) ∧
    ∀ t, ts.find? Token.isOutOfRange = some t →
      p.run.2 = some (.walk t.literalFault) ∧ p.lower = .error t.literalFault ∧
      t.literalFault.message =
        t.span.start.describe ++ ": " ++ ("invalid number literal " ++ quoted t.value) ∧
      ∃ before s after, p.body = before ++ s :: after ∧ t ∈ s.numbers ∧
        runStmts none before = (p.run.1, none) := by
  intro ts
  obtain ⟨hnormal, hnumbers⟩ := parse_numbers h
  have hfind : ts.find? Token.isOutOfRange = p.numbers.find? Token.isOutOfRange := by
    rw [hnumbers, List.find?_filter]
    refine congrArg (fun isBad => List.find? isBad ts) (funext fun t => ?_)
    simp [Token.isOutOfRange]
  have hdigits : ∀ t ∈ p.numbers, Literal.isDigits t.value := by
    intro t ht
    rw [hnumbers, List.mem_filter] at ht
    exact (Cursor.tokens_regular rfl t ht.1).isDigits ht.2
  obtain ⟨hnone, hsome⟩ := runStmts_numbers (List.all_eq_true.mp hnormal) hdigits
  rw [hfind]
  refine ⟨Program.outline_ok hnormal, fun opens => Program.visit_ok opens hnormal, ?_, ?_⟩
  · intro hall
    have hrun : p.run.2 = none := hnone hall
    obtain ⟨-, hlower⟩ | ⟨f, hfault, -⟩ := p.run_lower
    · exact ⟨hrun, hlower⟩
    · cases hrun.symm.trans hfault
  · intro t ht
    obtain ⟨before, s, after, hbody, hmem, hbefore, hfault⟩ := hsome t ht
    have hrun : p.run.2 = some (.walk t.literalFault) := hfault
    obtain ⟨hended, -⟩ | ⟨f, hended, hlower⟩ := p.run_lower
    · cases hended.symm.trans hrun
    · cases hended.symm.trans hrun
      exact ⟨hrun, hlower, rfl, before, s, after, hbody, hmem, hbefore⟩

theorem great_literal_after_greeting :
    let great := '1' :: List.replicate 309 '0'
    let text := String.ofList ("hi \"a\" 2+".toList ++ great)
    let t : Token := ⟨.number, String.ofList great, ⟨⟨8, 1, 9⟩, ⟨318, 1, 319⟩⟩⟩
    ∃ p, Program.parse text "f" = .ok p ∧ (∃ doc, p.outline = .ok doc) ∧
      p.run.2 = some (.walk t.literalFault) ∧ p.lower = .error t.literalFault ∧
      ∃ before s after, p.body = before ++ s :: after ∧ t ∈ s.numbers ∧
        runStmts none before = (p.run.1, none) := by
  intro great text t
  have hcursor : Cursor.ofText text "f" =
      ⟨"f", ⟨.start, none, Glyph.ofChars ("hi \"a\" 2+".toList ++ great)⟩, none, []⟩ := by
    rw [Cursor.ofText, Place.ofText, String.toList_ofList]
    rfl
  have hfind : (Cursor.ofText text "f").tokens.1.1.find? Token.isOutOfRange = some t := by
    have hrange : t.isOutOfRange := by
      rw [Token.isOutOfRange, String.toList_ofList]
      decide +kernel
    have htokens : (Cursor.ofText text "f").tokens.1.1 =
        (Cursor.ofText text "f").tokens.1.1.take 4 ++
          t :: (Cursor.ofText text "f").tokens.1.1.drop 5 := by
      rw [hcursor]
      decide +kernel
    have hbefore : ∀ u ∈ (Cursor.ofText text "f").tokens.1.1.take 4, !u.isOutOfRange := by
      rw [hcursor]
      decide +kernel
    exact List.find?_eq_some_iff_append.mpr ⟨hrange, _, _, htokens, hbefore⟩
  have hparses : (Program.parse text "f").toOption.isSome := by
    rw [Program.parse, hcursor]
    decide +kernel
  cases hparse : Program.parse text "f" with
  | error fault =>
    rw [hparse] at hparses
    cases hparses
  | ok p =>
    obtain ⟨houtline, -, -, hfails⟩ := parsed_text_fails_only_out_of_range text "f" p hparse
    obtain ⟨hrun, hlower, -, hheld⟩ := hfails t hfind
    exact ⟨p, rfl, houtline, hrun, hlower, hheld⟩

end HiToolchain
