import HiToolchain.Proofs.Layout

/-!
# The first token that does not fit

At every point of a program one of four things is due: a statement, an operand, the text of a
greeting, or, after an operand, an operator or a statement. `Stage` keeps track of this from one
kind of token to the next. No stage is a dead end, so the kinds that a stage admits are exactly
those with which the program can go on, and the walk over the tokens refuses a token only where
the stage it has come to does not admit it.
-/

namespace HiToolchain

open TokenWalk

/-- The kinds of the tokens of a text that is a program, without the end of the text. -/
def Accepted (ks : List TokenKind) : Prop :=
  ∃ text file ts last p, (Cursor.ofText text file).tokens.1 = (ts ++ [last], none) ∧
    Program.parse text file = .ok p ∧ ts.map Token.kind = ks

/-- The kinds with which some program starts. -/
def Startable (ks : List TokenKind) : Prop := ∃ more, Accepted (ks ++ more)

/-- A program can go on with a token of kind `k`, or can end there if `k` is the end. -/
def GoesOn (ks : List TokenKind) (k : TokenKind) : Prop :=
  if k = .eof then Accepted ks else Startable (ks ++ [k])

/-! ### Every sequence of the grammar is written in some text -/

/-- A token of each kind, with a value that goes with it. -/
def Token.sample (k : TokenKind) : Token where
  kind := k
  value := match k with
    | .hi => "hi"
    | .print => "print"
    | .number => "0"
    | _ => ""
  span := default

lemma Token.sample_regular {k : TokenKind} (hk : ∀ code, k ≠ .other code) :
    (Token.sample k).Regular := by
  cases k with
  | number => simp [Token.sample, Token.Regular, isDigit]
  | string => simp [Token.sample, Token.Regular]
  | other code => exact (hk code rfl).elim
  | _ => rfl

lemma ExprKinds.known {ks : List TokenKind} (h : ExprKinds ks) :
    ∀ k ∈ ks, ∀ code, k ≠ .other code := by
  induction h with
  | number => simp
  | @operation op ks hop h ih =>
    have hknown : ∀ code, op ≠ .other code := by
      rintro code rfl
      cases hop
    simp only [List.forall_mem_cons]
    exact ⟨nofun, hknown, ih⟩

lemma ProgramKinds.known {ks : List TokenKind} (h : ProgramKinds ks) :
    ∀ k ∈ ks, ∀ code, k ≠ .other code := by
  induction h with
  | nil => simp
  | greeting _ ih =>
    simp only [List.forall_mem_cons]
    exact ⟨nofun, nofun, ih⟩
  | printing he _ ih =>
    simp only [List.forall_mem_cons, List.forall_mem_append]
    exact ⟨nofun, he.known, ih⟩
  | evaluation he _ ih =>
    rw [List.forall_mem_append]
    exact ⟨he.known, ih⟩

/-- A blank before each lexeme keeps any two of them apart. -/
lemma exists_layout (previous : Option TokenKind) (xs : List Lexeme) :
    ∃ chars, Layout previous xs chars := by
  induction xs generalizing previous with
  | nil => exact ⟨[], .last [] nofun⟩
  | cons x xs ih =>
    obtain ⟨chars, hchars⟩ := ih (some x.1)
    exact ⟨_, .lexeme [' '] (by simp [isSeparator, isBlank]) nofun hchars⟩

lemma accepted_of_programKinds {ks : List TokenKind} (h : ProgramKinds ks) : Accepted ks := by
  let us := ks.map Token.sample
  have hkinds : us.map Token.kind = ks := by simp [us, Token.sample, Function.comp_def]
  have hregular : ∀ t ∈ us, t.Regular := by
    intro t ht
    obtain ⟨k, hk, rfl⟩ := List.mem_map.mp ht
    exact Token.sample_regular (h.known k hk)
  rw [← hkinds] at h
  obtain ⟨body, hbody, hlexemes⟩ := exists_body_of_programKinds hregular h
  let p : Program := ⟨default, body⟩
  have hnormal : p.isNormal := List.all_eq_true.mpr hbody
  have hwritable : ∀ x ∈ p.lexemes, x.isWritable := by
    intro x hx
    change x ∈ body.flatMap Stmt.lexemes at hx
    rw [← hlexemes, List.map_map] at hx
    obtain ⟨k, -, rfl⟩ := List.mem_map.mp hx
    cases k <;> simp [Token.sample, Token.lexeme, Lexeme.isWritable, isDigit]
  obtain ⟨chars, hchars⟩ := exists_layout none p.lexemes
  have hrest : (Cursor.ofText (String.ofList chars) "").place.rest = Glyph.ofChars chars := by
    change Glyph.ofChars (String.ofList chars).toList = _
    rw [String.toList_ofList]
  obtain ⟨ts, last, htokens, hts⟩ := hchars.tokens (p.proper_lexemes hnormal hwritable)
    (p.isChain_lexemes hnormal) hrest
  obtain ⟨q, hq, -⟩ := parse_readsBack htokens hnormal hts.symm
  refine ⟨_, _, ts, last, q, htokens, hq, ?_⟩
  have hsame : ts.map Token.lexeme = us.map Token.lexeme := hts.trans hlexemes.symm
  have hfirst := congrArg (List.map Prod.fst) hsame
  rw [List.map_map, List.map_map] at hfirst
  exact hfirst.trans hkinds

lemma accepted_iff {ks : List TokenKind} : Accepted ks ↔ ProgramKinds ks := by
  constructor
  · rintro ⟨text, file, ts, last, p, htokens, hp, rfl⟩
    obtain ⟨hnormal, hlexemes⟩ := parse_reads htokens hp
    have hkinds : ts.map Token.kind = p.lexemes.map Prod.fst := by
      rw [hlexemes, List.map_map]
      rfl
    rw [hkinds]
    exact programKinds_of_isNormal (List.all_eq_true.mp hnormal)
  · exact accepted_of_programKinds

/-! ### Stages -/

/-- What is due next. After an operand that is an operator or a statement. -/
inductive Stage where
  | statement
  | operator
  | operand
  | greeting
  deriving DecidableEq, Repr

namespace Stage

/-- The stage after the first token of a statement. -/
def begin? : TokenKind → Option Stage
  | .hi => some greeting
  | .print => some operand
  | .number => some operator
  | _ => none

def step? : Stage → TokenKind → Option Stage
  | statement, k => begin? k
  | operator, k => if k.isOperator then some operand else begin? k
  | operand, k => if k = .number then some operator else none
  | greeting, k => if k = .string then some statement else none

def run? (s : Stage) (ks : List TokenKind) : Option Stage := ks.foldlM step? s

/-- A program may end where a statement is due. -/
def isFinal : Stage → Bool
  | statement | operator => true
  | _ => false

def admits (s : Stage) (k : TokenKind) : Prop :=
  if k = .eof then s.isFinal else (s.step? k).isSome

/-- What completes a program from each stage on. -/
def Rest : Stage → List TokenKind → Prop
  | statement, ks => ProgramKinds ks
  | operator, ks => ∃ es rest, .number :: ks = es ++ rest ∧ ExprKinds es ∧ ProgramKinds rest
  | operand, ks => ∃ es rest, ks = es ++ rest ∧ ExprKinds es ∧ ProgramKinds rest
  | greeting, ks => ∃ rest, ks = .string :: rest ∧ ProgramKinds rest

lemma programKinds_cons {k : TokenKind} {ks : List TokenKind} :
    ProgramKinds (k :: ks) ↔ ∃ t, begin? k = some t ∧ Rest t ks := by
  constructor
  · intro h
    generalize hl : k :: ks = l at h
    cases h with
    | nil => cases hl
    | greeting h =>
      cases hl
      exact ⟨greeting, rfl, _, rfl, h⟩
    | printing he h =>
      cases hl
      exact ⟨operand, rfl, _, _, rfl, he, h⟩
    | @evaluation es rest he h =>
      have hk : k = .number := by cases he <;> cases hl <;> rfl
      subst hk
      exact ⟨operator, rfl, es, rest, hl, he, h⟩
  · rintro ⟨t, ht, hrest⟩
    unfold begin? at ht
    split at ht
    · cases ht
      obtain ⟨rest, rfl, h⟩ := hrest
      exact .greeting h
    · cases ht
      obtain ⟨es, rest, rfl, he, h⟩ := hrest
      exact .printing he h
    · cases ht
      obtain ⟨es, rest, heq, he, h⟩ := hrest
      rw [heq]
      exact .evaluation he h
    · cases ht

lemma begin?_of_isOperator {k : TokenKind} (h : k.isOperator) : begin? k = none := by
  cases k <;> first | rfl | cases h

lemma rest_operator_cons {k : TokenKind} {ks : List TokenKind} :
    Rest operator (k :: ks) ↔ ∃ t, step? operator k = some t ∧ Rest t ks := by
  by_cases hop : k.isOperator
  · simp only [step?, hop, if_true, Option.some.injEq, exists_eq_left']
    constructor
    · rintro ⟨es, rest, heq, he, h⟩
      cases he with
      | number =>
        -- a statement would start with an operator
        obtain ⟨-, rfl⟩ := List.cons.inj heq
        obtain ⟨t, ht, -⟩ := programKinds_cons.mp h
        rw [begin?_of_isOperator hop] at ht
        cases ht
      | operation _ he =>
        obtain ⟨-, heq⟩ := List.cons.inj heq
        obtain ⟨-, rfl⟩ := List.cons.inj heq
        exact ⟨_, rest, rfl, he, h⟩
    · rintro ⟨es, rest, rfl, he, h⟩
      exact ⟨.number :: k :: es, rest, rfl, .operation hop he, h⟩
  · simp only [step?, hop, if_false, ← programKinds_cons, Bool.false_eq_true]
    constructor
    · rintro ⟨es, rest, heq, he, h⟩
      cases he with
      | number =>
        obtain ⟨-, rfl⟩ := List.cons.inj heq
        exact h
      | operation hop' _ =>
        obtain ⟨-, heq⟩ := List.cons.inj heq
        obtain ⟨rfl, -⟩ := List.cons.inj heq
        exact (hop hop').elim
    · intro h
      exact ⟨[.number], k :: ks, rfl, .number, h⟩

lemma rest_cons (s : Stage) (k : TokenKind) (ks : List TokenKind) :
    Rest s (k :: ks) ↔ ∃ t, s.step? k = some t ∧ Rest t ks := by
  cases s with
  | statement => exact programKinds_cons
  | operator => exact rest_operator_cons
  | operand =>
    simp only [step?]
    split
    · next hk =>
      subst hk
      simp only [Option.some.injEq, exists_eq_left']
      rfl
    · next hk =>
      simp only [reduceCtorEq, false_and, exists_false, iff_false]
      rintro ⟨es, rest, heq, he, -⟩
      cases he <;> exact hk (List.cons.inj heq).1
  | greeting =>
    simp only [step?]
    split
    · next hk =>
      subst hk
      simp [Rest]
    · next hk => simp [Rest, hk]

lemma rest_nil (s : Stage) : Rest s [] ↔ s.isFinal := by
  cases s with
  | statement => simp [Rest, isFinal, ProgramKinds.nil]
  | operator => simpa [Rest, isFinal] using ⟨[.number], [], rfl, .number, .nil⟩
  | operand =>
    simp only [Rest, isFinal, Bool.false_eq_true, iff_false]
    rintro ⟨es, rest, heq, he, -⟩
    cases he <;> cases heq
  | greeting => simp [Rest, isFinal]

lemma run?_append (s : Stage) (ks ls : List TokenKind) :
    s.run? (ks ++ ls) = (s.run? ks).bind fun t => t.run? ls := by
  unfold run?
  rw [List.foldlM_append]
  rfl

/-- The kinds that complete a program are those that lead to a stage at which it may end. -/
lemma rest_iff (s : Stage) (ks : List TokenKind) :
    Rest s ks ↔ ∃ t, s.run? ks = some t ∧ t.isFinal := by
  induction ks generalizing s with
  | nil =>
    rw [rest_nil]
    simp [run?]
  | cons k ks ih =>
    rw [rest_cons]
    constructor
    · rintro ⟨t, ht, hrest⟩
      obtain ⟨u, hu, hfinal⟩ := (ih t).mp hrest
      refine ⟨u, ?_, hfinal⟩
      rw [run?, List.foldlM_cons, ht]
      exact hu
    · rintro ⟨u, hu, hfinal⟩
      rw [run?, List.foldlM_cons] at hu
      obtain ⟨t, ht, hrun⟩ := Option.bind_eq_some_iff.mp hu
      exact ⟨t, ht, (ih t).mpr ⟨u, hrun, hfinal⟩⟩

/-- No stage is a dead end. -/
lemma exists_rest (s : Stage) : ∃ ks, Rest s ks := by
  cases s with
  | statement => exact ⟨[], .nil⟩
  | operator => exact ⟨[], [.number], [], rfl, .number, .nil⟩
  | operand => exact ⟨[.number], [.number], [], rfl, .number, .nil⟩
  | greeting => exact ⟨[.string], [], rfl, .nil⟩

lemma startable_iff {ks : List TokenKind} : Startable ks ↔ ∃ s, statement.run? ks = some s := by
  constructor
  · rintro ⟨more, hmore⟩
    obtain ⟨t, ht, -⟩ := (rest_iff statement _).mp (accepted_iff.mp hmore)
    rw [run?_append] at ht
    obtain ⟨s, hs, -⟩ := Option.bind_eq_some_iff.mp ht
    exact ⟨s, hs⟩
  · rintro ⟨s, hs⟩
    obtain ⟨more, hmore⟩ := s.exists_rest
    obtain ⟨t, ht, hfinal⟩ := (rest_iff s more).mp hmore
    refine ⟨more, accepted_iff.mpr ((rest_iff statement _).mpr ⟨t, ?_, hfinal⟩)⟩
    rw [run?_append, hs]
    exact ht

/-- A program goes on with the kinds that its stage admits and with no others. -/
lemma goesOn_iff {ks : List TokenKind} {s : Stage} (h : statement.run? ks = some s)
    (k : TokenKind) : GoesOn ks k ↔ s.admits k := by
  unfold GoesOn admits
  split
  · rw [accepted_iff]
    change Rest statement ks ↔ _
    rw [rest_iff, h]
    simp
  · rw [startable_iff, run?_append, h, Option.isSome_iff_exists]
    simp [run?]

end Stage

/-! ### Where the walk refuses a token -/

/-- The walk has come from `ts` to `rest`, and the program from the stage `s` to `s'`. -/
def Passes (s : Stage) (ts : List Token) (s' : Stage) (rest : List Token) : Prop :=
  ∃ before, ts = before ++ rest ∧ s.run? (before.map Token.kind) = some s'

/-- If an outcome is a fault of the grammar, it is about a token that the stage reached there does
not admit, and expects only what that stage admits. -/
def Blames {ρ : Type} (s : Stage) (ts : List Token) (outcome : Except (Option ReadFault) ρ) :
    Prop :=
  ∀ g, outcome = .error (some (.grammatical g)) →
    ∃ t rest s', Passes s ts s' (t :: rest) ∧ g.got = t.kind ∧ g.span = t.span ∧
      ¬s'.admits t.kind ∧ g.expected ≠ [] ∧ ∀ k ∈ g.expected, s'.admits k

section

variable {file : String} {fault : Option LexFault} {ts : List Token} {s s' : Stage}

lemma Passes.refl (s : Stage) (ts : List Token) : Passes s ts s ts := ⟨[], rfl, rfl⟩

lemma Passes.trans {s'' : Stage} {us vs : List Token} (h : Passes s ts s' us)
    (h' : Passes s' us s'' vs) : Passes s ts s'' vs := by
  obtain ⟨before, rfl, hrun⟩ := h
  obtain ⟨before', rfl, hrun'⟩ := h'
  refine ⟨before ++ before', by rw [List.append_assoc], ?_⟩
  rw [List.map_append, Stage.run?_append, hrun]
  exact hrun'

lemma Passes.cons {t : Token} (h : s.step? t.kind = some s') (rest : List Token) :
    Passes s (t :: rest) s' rest := by
  refine ⟨[t], rfl, ?_⟩
  simp [Stage.run?, h]

lemma Blames.ok {ρ : Type} (r : ρ) : Blames s ts (.ok r : Except (Option ReadFault) ρ) :=
  fun _ h => nomatch h

lemma Blames.bind {ρ σ : Type} {outcome : Except (Option ReadFault) ρ}
    {next : ρ → Except (Option ReadFault) σ} (h : Blames s ts outcome)
    (hnext : ∀ r, outcome = .ok r → Blames s ts (next r)) : Blames s ts (outcome >>= next) := by
  intro g hg
  cases outcome with
  | ok r => exact hnext r rfl g hg
  | error e =>
    cases hg
    exact h g rfl

lemma Blames.of_passes {ρ : Type} {us : List Token} {outcome : Except (Option ReadFault) ρ}
    (hpasses : Passes s ts s' us) (h : Blames s' us outcome) : Blames s ts outcome := by
  intro g hg
  obtain ⟨t, rest, s'', hpasses', hblame⟩ := h g hg
  exact ⟨t, rest, s'', hpasses.trans hpasses', hblame⟩

/-- A token that is missing is no fault of the grammar. -/
lemma first_blames : Blames s ts (first fault ts) := by
  intro g hg
  cases ts with
  | nil => cases fault <;> cases hg
  | cons t rest => cases hg

lemma refuse_blames {ρ : Type} {t : Token} {rest : List Token} {expected : List TokenKind}
    (hts : ts = t :: rest) (ht : ¬s.admits t.kind) (hne : expected ≠ [])
    (hexpected : ∀ k ∈ expected, s.admits k) :
    Blames s ts (refuse file t expected : Except (Option ReadFault) ρ) := by
  intro g hg
  cases hg
  subst hts
  exact ⟨t, rest, s, .refl _ _, rfl, rfl, ht, hne, hexpected⟩

/-- Where one kind is due, any other is refused. -/
lemma expect_blames {kind : TokenKind} (hkind : ∀ k, s.admits k ↔ k = kind) :
    Blames s ts (expect file fault kind ts) := by
  refine first_blames.bind fun r hr => ?_
  split
  · exact .ok r
  · next hne =>
    refine refuse_blames (first_eq hr) (mt (hkind _).mp hne) (List.cons_ne_nil _ _) ?_
    simp [hkind]

lemma expect_passes {kind : TokenKind} {r : Reading Token ts}
    (h : expect file fault kind ts = .ok r) (hstep : s.step? kind = some s') :
    Passes s ts s' r.rest := by
  obtain ⟨hts, hkind⟩ := expect_ok h
  have hpasses : Passes s (r.value :: r.rest) s' r.rest := .cons (by rw [hkind, hstep]) r.rest
  rwa [← hts] at hpasses

/-! ### Expressions -/

/-- Where an operand is due, a walk blames the right token or passes an expression, up to a token
of a kind that `stops` it. -/
structure WalksExpr (stops : TokenKind → Prop) (outcome : Outcome Expr ts) : Prop where
  blames : Blames .operand ts outcome
  passes : ∀ r, outcome = .ok r →
    Passes .operand ts .operator r.rest ∧ ∀ t ∈ r.rest.head?, stops t.kind

lemma admits_operand (k : TokenKind) : Stage.operand.admits k ↔ k = .number := by
  cases k <;> simp [Stage.admits, Stage.step?, Stage.isFinal]

lemma admits_greeting (k : TokenKind) : Stage.greeting.admits k ↔ k = .string := by
  cases k <;> simp [Stage.admits, Stage.step?, Stage.isFinal]

lemma number_walks : WalksExpr (fun _ => True) (number file fault ts) := by
  constructor
  · exact (expect_blames admits_operand).bind fun _ _ => .ok _
  · intro r hr
    obtain ⟨t, ht, h⟩ := bind_eq_ok.mp hr
    cases h
    exact ⟨expect_passes ht rfl, fun _ _ => trivial⟩

lemma first_head {us : List Token} {r : Reading Token us} (h : first fault us = .ok r) :
    us.head? = some r.value := by
  conv_lhs => rw [first_eq h]
  rfl

lemma first_passes {us : List Token} {r : Reading Token us} (h : first fault us = .ok r)
    (hop : r.value.kind.isOperator) : Passes .operator us .operand r.rest := by
  have hstep : Stage.operator.step? r.value.kind = some .operand := by
    rw [Stage.step?, if_pos hop]
  have hpasses := Passes.cons hstep r.rest
  rwa [← first_eq h] at hpasses

lemma power_walks : WalksExpr (fun k => k ≠ .power) (power file fault ts) := by
  induction ts using power.induct with
  | case1 ts ih =>
    rw [power]
    constructor
    · refine number_walks.blames.bind fun left hleft => ?_
      obtain ⟨hpasses, -⟩ := number_walks.passes left hleft
      refine (first_blames.of_passes hpasses).bind fun op hop => ?_
      split
      · next hkind =>
        have hoperator := first_passes hop (by rw [hkind]; rfl)
        exact ((ih left op).blames.of_passes (hpasses.trans hoperator)).bind fun _ _ => .ok _
      · exact .ok left
    · intro r hr
      obtain ⟨left, hleft, hr⟩ := bind_eq_ok.mp hr
      obtain ⟨op, hop, hr⟩ := bind_eq_ok.mp hr
      obtain ⟨hpasses, -⟩ := number_walks.passes left hleft
      split at hr
      · next hkind =>
        obtain ⟨right, hright, hr⟩ := bind_eq_ok.mp hr
        cases hr
        obtain ⟨hpasses', hstops⟩ := (ih left op).passes right hright
        have hoperator := first_passes hop (by rw [hkind]; rfl)
        exact ⟨(hpasses.trans hoperator).trans hpasses', hstops⟩
      · next hkind =>
        cases hr
        refine ⟨hpasses, ?_⟩
        rw [first_head hop]
        simpa using hkind

/-- A chain goes on from an expression that has been passed, and stops before a token that neither
continues it nor its last operand. -/
lemma chain_walks {isOp : TokenKind → Bool} {operand : (ts : List Token) → Outcome Expr ts}
    {stops : TokenKind → Prop} (hisOp : ∀ op, isOp op → op.isOperator)
    (hoperand : ∀ ts, WalksExpr stops (operand ts)) (left : Reading Expr ts)
    (hpasses : Passes .operand ts .operator left.rest)
    (hstops : ∀ t ∈ left.rest.head?, stops t.kind) :
    WalksExpr (fun k => stops k ∧ isOp k = false) (chain fault isOp operand left) := by
  induction left using chain.induct with
  | case1 left ih =>
    rw [chain]
    constructor
    · refine (first_blames.of_passes hpasses).bind fun op hop => ?_
      split
      · next hkind =>
        have hnext := hpasses.trans (first_passes hop (hisOp _ hkind))
        refine ((hoperand op.rest).blames.of_passes hnext).bind fun right hright => ?_
        obtain ⟨hright', hstops'⟩ := (hoperand op.rest).passes right hright
        exact (ih op right (hnext.trans hright') hstops').blames
      · exact .ok left
    · intro r hr
      obtain ⟨op, hop, hr⟩ := bind_eq_ok.mp hr
      split at hr
      · next hkind =>
        have hnext := hpasses.trans (first_passes hop (hisOp _ hkind))
        obtain ⟨right, hright, hr⟩ := bind_eq_ok.mp hr
        obtain ⟨hright', hstops'⟩ := (hoperand op.rest).passes right hright
        exact (ih op right (hnext.trans hright') hstops').passes r hr
      · next hkind =>
        cases hr
        refine ⟨hpasses, ?_⟩
        intro t ht
        refine ⟨hstops t ht, ?_⟩
        rw [first_head hop] at ht
        cases ht
        simpa using hkind

/-- An operand and the chain after it. -/
lemma WalksExpr.chain {isOp : TokenKind → Bool} {operand : (ts : List Token) → Outcome Expr ts}
    {stops : TokenKind → Prop} (hisOp : ∀ op, isOp op → op.isOperator)
    (hoperand : ∀ ts, WalksExpr stops (operand ts)) :
    WalksExpr (fun k => stops k ∧ isOp k = false)
      (operand ts >>= chain fault isOp operand) := by
  constructor
  · refine (hoperand ts).blames.bind fun left hleft => ?_
    obtain ⟨hpasses, hstops⟩ := (hoperand ts).passes left hleft
    exact (chain_walks hisOp hoperand left hpasses hstops).blames
  · intro r hr
    obtain ⟨left, hleft, hr⟩ := bind_eq_ok.mp hr
    obtain ⟨hpasses, hstops⟩ := (hoperand ts).passes left hleft
    exact (chain_walks hisOp hoperand left hpasses hstops).passes r hr

lemma product_walks :
    WalksExpr (fun k => k ≠ .power ∧ k.isMultiplicative = false) (product file fault ts) :=
  .chain (fun _ h => isOperator_iff.mpr (.inr (.inl h))) fun _ => power_walks

lemma sum_walks : WalksExpr (fun k => k.isOperator = false) (sum file fault ts) := by
  have hchain : WalksExpr (fun k => (k ≠ .power ∧ k.isMultiplicative = false) ∧
      k.isAdditive = false) (sum file fault ts) :=
    .chain (fun _ h => isOperator_iff.mpr (.inl h)) fun _ => product_walks
  refine ⟨hchain.blames, fun r hr => ?_⟩
  obtain ⟨hpasses, hstops⟩ := hchain.passes r hr
  refine ⟨hpasses, fun t ht => ?_⟩
  obtain ⟨⟨hpower, hmultiplicative⟩, hadditive⟩ := hstops t ht
  rw [← Bool.not_eq_true, isOperator_iff]
  simp [hpower, hmultiplicative, hadditive]

/-! ### Statements -/

/-- A statement is due. After an expression the next token is no operator, because the expression
would have taken it. -/
structure Due (s : Stage) (ts : List Token) : Prop where
  isFinal : s.isFinal
  begins : ∀ t ∈ ts.head?, s.step? t.kind = Stage.begin? t.kind

lemma due_statement (ts : List Token) : Due .statement ts := ⟨rfl, fun _ _ => rfl⟩

lemma due_operator (h : ∀ t ∈ ts.head?, t.kind.isOperator = false) : Due .operator ts := by
  refine ⟨rfl, fun t ht => ?_⟩
  rw [Stage.step?, h t ht]
  rfl

/-- Where a statement is due and a number comes, the number may as well be the operand that is
due. -/
lemma Passes.of_operand {t : Token} {us rest : List Token} (ht : t.kind = .number)
    (hs : s.step? .number = some .operator) (hne : ¬(s' = .operand ∧ rest = t :: us))
    (h : Passes .operand (t :: us) s' rest) : Passes s (t :: us) s' rest := by
  obtain ⟨before, heq, hrun⟩ := h
  cases before with
  | nil =>
    have hstage : Stage.operand = s' := by simpa [Stage.run?] using hrun
    exact (hne ⟨hstage.symm, heq.symm⟩).elim
  | cons u before =>
    obtain ⟨rfl, rfl⟩ := List.cons.inj heq
    refine ⟨t :: before, rfl, ?_⟩
    rw [Stage.run?, List.map_cons, List.foldlM_cons, ht] at hrun ⊢
    rw [hs]
    exact hrun

lemma Blames.of_operand {ρ : Type} {t : Token} {us : List Token}
    {outcome : Except (Option ReadFault) ρ} (ht : t.kind = .number)
    (hs : s.step? .number = some .operator) (h : Blames .operand (t :: us) outcome) :
    Blames s (t :: us) outcome := by
  intro g hg
  obtain ⟨u, rest, s', hpasses, hgot, hspan, hadmits, hexpected⟩ := h g hg
  refine ⟨u, rest, s', hpasses.of_operand ht hs ?_, hgot, hspan, hadmits, hexpected⟩
  rintro ⟨rfl, heq⟩
  obtain ⟨rfl, -⟩ := List.cons.inj heq
  exact hadmits ((admits_operand _).mpr ht)

/-- What a walk over one statement comes to where one is due. -/
structure WalksStmt (s : Stage) (outcome : Outcome Stmt ts) : Prop where
  blames : Blames s ts outcome
  passes : ∀ r, outcome = .ok r → ∃ s', Passes s ts s' r.rest ∧ Due s' r.rest

lemma greeting_walks {t : Token} {us : List Token} (ht : t.kind = .hi)
    (hs : s.step? .hi = some .greeting) : WalksStmt s (greeting file fault (t :: us)) := by
  have hpasses : Passes s (t :: us) .greeting us := .cons (by rw [ht, hs]) us
  unfold TokenWalk.greeting
  rw [expect_cons ht, ok_bind]
  constructor
  · exact (expect_blames admits_greeting).of_passes hpasses |>.bind fun _ _ => .ok _
  · intro r hr
    obtain ⟨name, hname, h⟩ := bind_eq_ok.mp hr
    cases h
    exact ⟨.statement, hpasses.trans (expect_passes hname rfl), due_statement _⟩

lemma printing_walks {t : Token} {us : List Token} (ht : t.kind = .print)
    (hs : s.step? .print = some .operand) : WalksStmt s (printing file fault (t :: us)) := by
  have hpasses : Passes s (t :: us) .operand us := .cons (by rw [ht, hs]) us
  unfold TokenWalk.printing
  rw [expect_cons ht, ok_bind]
  constructor
  · exact (sum_walks.blames.of_passes hpasses).bind fun _ _ => .ok _
  · intro r hr
    obtain ⟨value, hvalue, h⟩ := bind_eq_ok.mp hr
    cases h
    obtain ⟨hvalue', hstops⟩ := sum_walks.passes value hvalue
    exact ⟨.operator, hpasses.trans hvalue', due_operator hstops⟩

lemma evaluation_walks {t : Token} {us : List Token} (ht : t.kind = .number)
    (hs : s.step? .number = some .operator) : WalksStmt s (evaluation file fault (t :: us)) := by
  unfold TokenWalk.evaluation
  constructor
  · exact (sum_walks.blames.of_operand ht hs).bind fun _ _ => .ok _
  · intro r hr
    obtain ⟨value, hvalue, h⟩ := bind_eq_ok.mp hr
    cases h
    obtain ⟨hpasses, hstops⟩ := sum_walks.passes value hvalue
    exact ⟨.operator, hpasses.of_operand ht hs (by rintro ⟨⟨⟩, -⟩), due_operator hstops⟩

lemma statement_walks {t : Token} {us : List Token} (hdue : Due s (t :: us))
    (ht : t.kind ≠ .eof) : WalksStmt s (statement file fault (t :: us)) := by
  have hbegins : s.step? t.kind = Stage.begin? t.kind := hdue.begins t rfl
  rw [statement_cons]
  split
  · next hkind => exact greeting_walks hkind (by rw [← hkind, hbegins, hkind]; rfl)
  · next hkind => exact evaluation_walks hkind (by rw [← hkind, hbegins, hkind]; rfl)
  · next hkind => exact printing_walks hkind (by rw [← hkind, hbegins, hkind]; rfl)
  · next hhi hnumber hprint =>
    refine ⟨refuse_blames rfl ?_ (List.cons_ne_nil _ _) ?_, fun r hr => nomatch hr⟩
    · rw [Stage.admits, if_neg ht, hbegins]
      cases hkind : t.kind <;> simp_all [Stage.begin?]
    · have hadmits : ∀ k ∈ [TokenKind.hi, .number, .print], s.admits k := by
        have hfinal := hdue.isFinal
        cases s <;> simp_all [Stage.isFinal, Stage.admits, Stage.step?, Stage.begin?,
          TokenKind.isOperator]
      exact hadmits

lemma statements_blame (hdue : Due s ts) : Blames s ts (statements file fault ts) := by
  induction ts using statements.induct generalizing s with
  | case1 ts ih =>
    rw [statements]
    refine first_blames.bind fun t ht => ?_
    split
    · exact .ok []
    · next hkind =>
      have hwalks : WalksStmt s (statement file fault ts) := by
        have hts := first_eq ht
        generalize hus : t.rest = us at hts
        generalize hu : t.value = u at hts hkind
        subst hts
        exact statement_walks hdue hkind
      refine hwalks.blames.bind fun st hst => ?_
      obtain ⟨s', hpasses, hdue'⟩ := hwalks.passes st hst
      exact (ih st hdue').of_passes hpasses |>.bind fun _ _ => .ok _

lemma program_blames : Blames .statement ts (program file fault ts) :=
  (statements_blame (due_statement ts)).bind fun _ _ => .ok _

end

/-- A text that is refused by the grammar is refused at the first of its tokens with which no
program that starts like the text can go on, or end. The kinds expected there are some with which
one can. -/
theorem parse_fault_at_first_misfit (text file : String) (g : ParseFault)
    (h : Program.parse text file = .error (.grammatical g)) :
    let ts := (Cursor.ofText text file).tokens.1.1
    ∃ j t, ts[j]? = some t ∧ g.got = t.kind ∧ g.span = t.span ∧
      Startable ((ts.take j).map Token.kind) ∧
      ¬GoesOn ((ts.take j).map Token.kind) t.kind ∧
      g.expected ≠ [] ∧ ∀ k ∈ g.expected, GoesOn ((ts.take j).map Token.kind) k := by
  intro ts
  have hwalk := parse_eq_program (Cursor.ofText text file) rfl
  change program _ _ ts = (Program.parse text file).mapError some at hwalk
  rw [h] at hwalk
  obtain ⟨t, rest, s, ⟨before, hts, hrun⟩, hgot, hspan, hadmits, hne, hexpected⟩ :=
    program_blames g hwalk
  have htake : ts.take before.length = before := by rw [hts, List.take_left]
  refine ⟨before.length, t, ?_, hgot, hspan, ?_⟩
  · rw [hts, List.getElem?_append_right (Nat.le_refl _), Nat.sub_self]
    rfl
  · rw [htake]
    refine ⟨Stage.startable_iff.mpr ⟨s, hrun⟩, ?_, hne, ?_⟩
    · rwa [Stage.goesOn_iff hrun]
    · intro k hk
      exact (Stage.goesOn_iff hrun k).mpr (hexpected k hk)

/-- In `1 2 *`, where two statements stand side by side, it is the end that does not fit. -/
theorem parse_fault_at_missing_operand :
    let g : ParseFault := ⟨"stdin", .eof, [.number], .point ⟨4, 1, 5⟩⟩
    let ts := (Cursor.ofText "1 2 *" "").tokens.1.1
    Program.parse "1 2 *" "" = .error (.grammatical g) ∧
      ∃ j t, ts[j]? = some t ∧ t.kind = .eof ∧
        Startable ((ts.take j).map Token.kind) ∧
        ¬GoesOn ((ts.take j).map Token.kind) .eof ∧
        GoesOn ((ts.take j).map Token.kind) .number := by
  intro g ts
  have h : Program.parse "1 2 *" "" = .error (.grammatical g) := by decide +kernel
  obtain ⟨j, t, ht, hgot, -, hstartable, hmisfit, -, hexpected⟩ :=
    parse_fault_at_first_misfit _ _ g h
  have hkind : t.kind = .eof := hgot.symm
  rw [hkind] at hmisfit
  exact ⟨h, j, t, ht, hkind, hstartable, hmisfit, hexpected .number List.mem_cons_self⟩

end HiToolchain
