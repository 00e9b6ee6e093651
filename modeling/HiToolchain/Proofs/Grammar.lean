import HiToolchain.Proofs.ParserRefinement

/-!
# The grammar of programs

A text is accepted when the kinds of its tokens are a sequence of statements, and the tree built
from it is the only one in normal form with these lexemes. Both directions go through the walk
over the tokens: what it reads is spelled by the tokens that it takes, and it reads every normal
tree back from its lexemes.
-/

namespace HiToolchain

open TokenWalk

/-- Numbers with an operator between any two of them. -/
inductive ExprKinds : List TokenKind → Prop
  | number : ExprKinds [.number]
  | operation {op : TokenKind} {ks : List TokenKind} (hop : op.isOperator) (h : ExprKinds ks) :
      ExprKinds (.number :: op :: ks)

/-- Statements one after the other: a greeting, a `print` with an expression, or an expression. -/
inductive ProgramKinds : List TokenKind → Prop
  | nil : ProgramKinds []
  | greeting {ks : List TokenKind} (h : ProgramKinds ks) : ProgramKinds (.hi :: .string :: ks)
  | printing {es ks : List TokenKind} (he : ExprKinds es) (h : ProgramKinds ks) :
      ProgramKinds (.print :: (es ++ ks))
  | evaluation {es ks : List TokenKind} (he : ExprKinds es) (h : ProgramKinds ks) :
      ProgramKinds (es ++ ks)

/-! ### What the walk reads is spelled by its tokens -/

/-- The tokens are those of `lexemes` and then `rest`. -/
def Spells (ts : List Token) (lexemes : List Lexeme) (rest : List Token) : Prop :=
  ts.map Token.lexeme = lexemes ++ rest.map Token.lexeme

lemma Spells.append {ts us rest : List Token} {ls ms : List Lexeme} (h : Spells ts ls us)
    (h' : Spells us ms rest) : Spells ts (ls ++ ms) rest := by
  unfold Spells at h h' ⊢
  rw [h, h', List.append_assoc]

lemma value_of_isOperator {t : Token} (h : t.Regular) (hop : t.kind.isOperator) : t.value = "" := by
  unfold Token.Regular at h
  generalize t.kind = kind at h hop
  cases kind <;> simp_all [TokenKind.isOperator]

section

variable {file : String} {fault : Option LexFault} {ts : List Token}

lemma expect_ok {kind : TokenKind} {r : Reading Token ts} (h : expect file fault kind ts = .ok r) :
    ts = r.value :: r.rest ∧ r.value.kind = kind := by
  obtain ⟨t, ht, h⟩ := bind_eq_ok.mp h
  split at h
  · next hkind =>
    cases h
    exact ⟨first_eq ht, hkind⟩
  · cases h

/-- A reading of an expression that is `good`, from tokens that spell it. -/
def ReadsExpr (good : Expr → Prop) (r : Reading Expr ts) : Prop :=
  Spells ts r.value.lexemes r.rest ∧ good r.value

def NormalFactor (e : Expr) : Prop := e.isNormal ∧ e.isFactor

def NormalTerm (e : Expr) : Prop := e.isNormal ∧ e.isSum = false

lemma NormalFactor.term {e : Expr} (h : NormalFactor e) : NormalTerm e := by
  refine ⟨h.1, ?_⟩
  cases e with
  | number span digits => rfl
  | binary span op left right =>
    have hop : op = .power := by simpa [Expr.isFactor] using h.2
    rw [hop]
    rfl
  | foreign span node => rfl

/-- Readings of an operand, an operator and an operand make a reading of an operation. -/
lemma ReadsExpr.operation {good good' : Expr → Prop} {left : Reading Expr ts}
    {op : Reading Token left.rest} {right : Reading Expr op.rest}
    (hregular : ∀ t ∈ ts, t.Regular) (hleft : ReadsExpr good left)
    (hop : first fault left.rest = .ok op) (hkind : op.value.kind.isOperator)
    (hright : ReadsExpr good' right) {good'' : Expr → Prop}
    (hgood : good'' (Parser.operation op.value.kind left.value right.value)) :
    ReadsExpr good'' ((left.andThen (op.andThen right)).map
      (Parser.operation op.value.kind left.value)) := by
  have hvalue : op.value.value = "" :=
    value_of_isOperator (hregular _ (left.suffix.subset (first_mem hop))) hkind
  have hspells : Spells left.rest [(op.value.kind, "")] op.rest := by
    unfold Spells
    conv_lhs => rw [first_eq hop]
    rw [List.map_cons, Token.lexeme, hvalue]
    rfl
  exact ⟨hleft.1.append (hspells.append hright.1), hgood⟩

lemma number_reads {r : Reading Expr ts} (h : number file fault ts = .ok r) :
    ReadsExpr NormalFactor r ∧ r.value.isNumber := by
  obtain ⟨t, ht, h⟩ := bind_eq_ok.mp h
  obtain ⟨hts, hkind⟩ := expect_ok ht
  cases h
  refine ⟨⟨?_, rfl, rfl⟩, rfl⟩
  unfold Spells
  conv_lhs => rw [hts]
  rw [List.map_cons, Token.lexeme, hkind]
  rfl

lemma power_reads {r : Reading Expr ts} (hregular : ∀ t ∈ ts, t.Regular)
    (h : power file fault ts = .ok r) : ReadsExpr NormalFactor r := by
  induction ts using power.induct with
  | case1 ts ih =>
    rw [power] at h
    obtain ⟨left, hleft, h⟩ := bind_eq_ok.mp h
    obtain ⟨op, hop, h⟩ := bind_eq_ok.mp h
    obtain ⟨hreads, hnumber⟩ := number_reads hleft
    split at h
    · next hkind =>
      obtain ⟨right, hright, h⟩ := bind_eq_ok.mp h
      cases h
      have hregular' : ∀ t ∈ op.rest, t.Regular :=
        fun t ht => hregular t (left.suffix.subset (op.suffix.subset ht))
      have hfactor := ih left op hregular' hright
      refine hreads.operation hregular hop (by rw [hkind]; rfl) hfactor ⟨?_, by rw [hkind]; rfl⟩
      exact isNormal_binary.mpr ⟨hreads.2.1, hfactor.2.1, .power hkind hnumber hfactor.2.2⟩
    · cases h
      exact hreads

lemma chain_reads {isOp : TokenKind → Bool} {operand : (ts : List Token) → Outcome Expr ts}
    {good good' : Expr → Prop} (hisOp : ∀ op, isOp op → op.isOperator)
    (hoperand : ∀ (ts : List Token) (r : Reading Expr ts), (∀ t ∈ ts, t.Regular) →
      operand ts = .ok r → ReadsExpr good' r)
    (hgood : ∀ op left right, isOp op → good left → good' right →
      good (Parser.operation op left right))
    (hregular : ∀ t ∈ ts, t.Regular) (left : Reading Expr ts) {r : Reading Expr ts}
    (hleft : ReadsExpr good left) (h : chain fault isOp operand left = .ok r) :
    ReadsExpr good r := by
  induction left using chain.induct with
  | case1 left ih =>
    rw [chain] at h
    obtain ⟨op, hop, h⟩ := bind_eq_ok.mp h
    split at h
    · next hkind =>
      obtain ⟨right, hright, h⟩ := bind_eq_ok.mp h
      have hregular' : ∀ t ∈ op.rest, t.Regular :=
        fun t ht => hregular t (left.suffix.subset (op.suffix.subset ht))
      have hreads := hoperand op.rest right hregular' hright
      refine ih op right ?_ h
      exact hleft.operation hregular hop (hisOp _ hkind) hreads
        (hgood _ _ _ hkind hleft.2 hreads.2)
    · cases h
      exact hleft

lemma product_reads {r : Reading Expr ts} (hregular : ∀ t ∈ ts, t.Regular)
    (h : product file fault ts = .ok r) : ReadsExpr NormalTerm r := by
  obtain ⟨left, hleft, h⟩ := bind_eq_ok.mp h
  have hreads := power_reads hregular hleft
  refine chain_reads (fun _ h => isOperator_iff.mpr (.inr (.inl h))) (fun _ _ => power_reads) ?_
    hregular left ⟨hreads.1, hreads.2.term⟩ h
  intro op left right hop hleft hright
  exact ⟨isNormal_binary.mpr ⟨hleft.1, hright.1, .product hop hleft.2 hright.2⟩,
    not_additive_of_multiplicative hop⟩

lemma sum_reads {r : Reading Expr ts} (hregular : ∀ t ∈ ts, t.Regular)
    (h : sum file fault ts = .ok r) : ReadsExpr (fun e => e.isNormal) r := by
  obtain ⟨left, hleft, h⟩ := bind_eq_ok.mp h
  have hreads := product_reads hregular hleft
  refine chain_reads (fun _ h => isOperator_iff.mpr (.inl h)) (fun _ _ => product_reads) ?_
    hregular left ⟨hreads.1, hreads.2.1⟩ h
  intro op left right hop hleft hright
  exact isNormal_binary.mpr ⟨hleft, hright.1, .sum hop hright.2⟩

lemma expect_spells {kind : TokenKind} {r : Reading Token ts}
    (h : expect file fault kind ts = .ok r) : Spells ts [(kind, r.value.value)] r.rest := by
  obtain ⟨hts, hkind⟩ := expect_ok h
  unfold Spells
  conv_lhs => rw [hts]
  rw [List.map_cons, Token.lexeme, hkind]
  rfl

lemma expect_regular {kind : TokenKind} {r : Reading Token ts} (hregular : ∀ t ∈ ts, t.Regular)
    (h : expect file fault kind ts = .ok r) : r.value.Regular := by
  apply hregular
  have hmem : r.value ∈ r.value :: r.rest := List.mem_cons_self
  rwa [← (expect_ok h).1] at hmem

lemma statement_reads {r : Reading Stmt ts} (hregular : ∀ t ∈ ts, t.Regular)
    (h : statement file fault ts = .ok r) :
    Spells ts r.value.lexemes r.rest ∧ r.value.isNormal := by
  obtain ⟨t, ht, h⟩ := bind_eq_ok.mp h
  split at h
  · obtain ⟨hi, hhi, h⟩ := bind_eq_ok.mp h
    obtain ⟨name, hname, h⟩ := bind_eq_ok.mp h
    cases h
    have hvalue : hi.value.value = "hi" := by
      have hword := expect_regular hregular hhi
      rwa [Token.Regular, (expect_ok hhi).2] at hword
    have hspells := (expect_spells hhi).append (expect_spells hname)
    rw [hvalue] at hspells
    exact ⟨hspells, rfl⟩
  · obtain ⟨value, hvalue, h⟩ := bind_eq_ok.mp h
    cases h
    exact sum_reads hregular hvalue
  · obtain ⟨word, hword, h⟩ := bind_eq_ok.mp h
    obtain ⟨value, hvalue, h⟩ := bind_eq_ok.mp h
    cases h
    have hprint : word.value.value = "print" := by
      have hregular' := expect_regular hregular hword
      rwa [Token.Regular, (expect_ok hword).2] at hregular'
    obtain ⟨hspells, hnormal⟩ :=
      sum_reads (fun t ht => hregular t (word.suffix.subset ht)) hvalue
    have hall := (expect_spells hword).append hspells
    rw [hprint] at hall
    exact ⟨hall, hnormal⟩
  · cases h

lemma statements_read {body : List Stmt} (hregular : ∀ t ∈ ts, t.Regular)
    (h : statements file fault ts = .ok body) :
    ∃ last rest, last.kind = .eof ∧ Spells ts (body.flatMap Stmt.lexemes) (last :: rest) ∧
      body.all Stmt.isNormal := by
  induction ts using statements.induct generalizing body with
  | case1 ts ih =>
    rw [statements] at h
    obtain ⟨t, ht, h⟩ := bind_eq_ok.mp h
    split at h
    · next hkind =>
      cases h
      refine ⟨t.value, t.rest, hkind, ?_, rfl⟩
      unfold Spells
      rw [← first_eq ht]
      rfl
    · obtain ⟨s, hs, h⟩ := bind_eq_ok.mp h
      obtain ⟨body, hbody, h⟩ := bind_eq_ok.mp h
      cases h
      obtain ⟨hspells, hnormal⟩ := statement_reads hregular hs
      obtain ⟨last, rest, hlast, hrest, hall⟩ :=
        ih s (fun t ht => hregular t (s.suffix.subset ht)) hbody
      refine ⟨last, rest, hlast, ?_, ?_⟩
      · rw [List.flatMap_cons]
        exact hspells.append hrest
      · rw [List.all_cons, hnormal, hall]
        rfl

/-! ### The walk reads every normal tree back -/

/-- From the lexemes of a `good` expression and a token of a kind that `stops` it, a walk reads
that expression and leaves the rest. -/
def ReadsBack (stops : TokenKind → Prop) (good : Expr → Prop)
    (walk : (ts : List Token) → Outcome Expr ts) : Prop :=
  ∀ e us t tail, good e → us.map Token.lexeme = e.lexemes → stops t.kind →
    ∃ r : Reading Expr (us ++ t :: tail),
      walk (us ++ t :: tail) = .ok r ∧ r.value.bare = e.bare ∧ r.rest = t :: tail

lemma number_cons {t : Token} (ht : t.kind = .number) (rest : List Token) :
    number file fault (t :: rest) =
      .ok ⟨.number t.span t.value, rest, t, List.suffix_refl _⟩ := by
  change ((if t.kind = .number then _ else _) >>= _) = _
  rw [if_pos ht]
  rfl

/-- A number that no power sign follows. -/
lemma power_number {n t : Token} (hn : n.kind = .number) (ht : t.kind ≠ .power)
    (tail : List Token) :
    power file fault (n :: t :: tail) =
      .ok ⟨.number n.span n.value, t :: tail, n, List.suffix_refl _⟩ := by
  rw [power, number_cons hn, ok_bind]
  change (if t.kind = .power then _ else _) = _
  rw [if_neg ht]
  rfl

/-- A number, a power sign and another power. -/
lemma power_operation {n o : Token} (hn : n.kind = .number) (ho : o.kind = .power)
    {rest : List Token} {right : Reading Expr rest} (hright : power file fault rest = .ok right) :
    ∃ r : Reading Expr (n :: o :: rest), power file fault (n :: o :: rest) = .ok r ∧
      r.value = Parser.operation .power (.number n.span n.value) right.value ∧
      r.rest = right.rest := by
  rw [power, number_cons hn, ok_bind]
  change ∃ r, (if o.kind = .power then power file fault rest >>= _ else _) = _ ∧ _
  rw [if_pos ho, hright, ok_bind]
  exact ⟨_, rfl, by rw [← ho]; rfl, rfl⟩

lemma power_readsBack : ReadsBack (fun k => k ≠ .power) NormalFactor (power file fault) := by
  intro e
  induction e with
  | number span digits =>
    intro us t tail hgood hus ht
    obtain ⟨n, rfl, hn⟩ := List.map_eq_singleton_iff.mp hus
    obtain ⟨hkind, rfl⟩ := Prod.mk.inj hn
    exact ⟨_, power_number hkind ht tail, rfl, rfl⟩
  | binary span op left right ihleft ihright =>
    intro us t tail hgood hus ht
    obtain ⟨hnormal, hfactor⟩ := hgood
    obtain ⟨-, hright, hoperation⟩ := isNormal_binary.mp hnormal
    obtain rfl : op = .power := by simpa [Expr.isFactor] using hfactor
    obtain ⟨hop, -⟩ | ⟨hop, -, -⟩ | ⟨-, hnumber, hrightFactor⟩ := hoperation
    · cases hop
    · cases hop
    cases left with
    | number span' digits =>
      obtain ⟨n, us, rfl, hn, hus⟩ := List.map_eq_cons_iff.mp hus
      obtain ⟨o, us, rfl, ho, hus⟩ := List.map_eq_cons_iff.mp hus
      obtain ⟨hkind, rfl⟩ := Prod.mk.inj hn
      obtain ⟨hokind, -⟩ := Prod.mk.inj ho
      obtain ⟨r, hr, hbare, hrest⟩ := ihright us t tail ⟨hright, hrightFactor⟩ (by assumption) ht
      obtain ⟨r', hr', hvalue', hrest'⟩ := power_operation hkind hokind hr
      refine ⟨r', hr', ?_, hrest'.trans hrest⟩
      rw [hvalue', Parser.operation, Expr.bare, hbare]
      rfl
    | binary span' op' left' right' => cases hnumber
    | foreign span' node => cases hnumber
  | foreign span node =>
    intro us t tail hgood
    cases hgood.1

lemma chain_stop {isOp : TokenKind → Bool} {operand : (ts : List Token) → Outcome Expr ts}
    {left : Reading Expr ts} {t : Token} {tail : List Token} (hrest : left.rest = t :: tail)
    (ht : isOp t.kind = false) : chain fault isOp operand left = .ok left := by
  obtain ⟨value, rest, proper⟩ := left
  obtain rfl : rest = t :: tail := hrest
  rw [chain]
  change (if isOp t.kind then _ else _) = _
  rw [ht]
  rfl

lemma chain_step {isOp : TokenKind → Bool} {operand : (ts : List Token) → Outcome Expr ts}
    {left : Reading Expr ts} {o : Token} {rest : List Token} {right : Reading Expr rest}
    (hrest : left.rest = o :: rest) (ho : isOp o.kind) (hright : operand rest = .ok right) :
    ∃ r : Reading Expr ts, chain fault isOp operand left = chain fault isOp operand r ∧
      r.value = Parser.operation o.kind left.value right.value ∧ r.rest = right.rest := by
  obtain ⟨value, rest', proper⟩ := left
  obtain rfl : rest' = o :: rest := hrest
  let op : Reading Token (o :: rest) := ⟨o, rest, o, List.suffix_refl _⟩
  let left : Reading Expr ts := ⟨value, o :: rest, proper⟩
  refine ⟨(left.andThen (op.andThen right)).map (Parser.operation o.kind value), ?_, rfl, rfl⟩
  conv_lhs => rw [chain]
  change (if isOp o.kind then operand rest >>= _ else _) = _
  rw [if_pos ho, hright]
  rfl

/-- Chains read back what their operands do, one operator at a time from the left. -/
lemma chain_readsBack {isOp : TokenKind → Bool} {operand : (ts : List Token) → Outcome Expr ts}
    {stops : TokenKind → Prop} {good good' : Expr → Prop}
    (hoperand : ReadsBack stops good' operand) (hstops : ∀ op, isOp op → stops op)
    (hgood : ∀ e, good e → good' e ∨
      ∃ span op left right, e = .binary span op left right ∧ isOp op ∧ good left ∧ good' right) :
    ReadsBack (fun k => stops k ∧ isOp k = false) good
      (fun ts => operand ts >>= chain fault isOp operand) := by
  have hbase : ∀ e us t tail, good' e → us.map Token.lexeme = e.lexemes → stops t.kind →
      ∃ left : Reading Expr (us ++ t :: tail),
        (operand (us ++ t :: tail) >>= chain fault isOp operand) = chain fault isOp operand left ∧
        left.value.bare = e.bare ∧ left.rest = t :: tail := by
    intro e us t tail he hus ht
    obtain ⟨r, hr, hbare, hrest⟩ := hoperand e us t tail he hus ht
    exact ⟨r, by rw [hr, ok_bind], hbare, hrest⟩
  -- the chain goes on from the expression read so far, whatever follows
  have hchain : ∀ e us t tail, good e → us.map Token.lexeme = e.lexemes → stops t.kind →
      ∃ left : Reading Expr (us ++ t :: tail),
        (operand (us ++ t :: tail) >>= chain fault isOp operand) = chain fault isOp operand left ∧
        left.value.bare = e.bare ∧ left.rest = t :: tail := by
    intro e
    induction e with
    | binary span op left right ihleft ihright =>
      intro us t tail he hus ht
      obtain hwhole | ⟨_, _, _, _, ⟨rfl⟩, hop, hleft, hright⟩ := hgood _ he
      · exact hbase _ us t tail hwhole hus ht
      · obtain ⟨us₁, us₂, rfl, hus₁, hus₂⟩ := List.map_eq_append_iff.mp hus
        obtain ⟨o, us₃, rfl, ho, hus₃⟩ := List.map_eq_cons_iff.mp hus₂
        obtain rfl : o.kind = op := (Prod.mk.inj ho).1
        rw [List.append_assoc, List.cons_append]
        obtain ⟨l, hl, hlbare, hlrest⟩ :=
          ihleft us₁ o (us₃ ++ t :: tail) hleft hus₁ (hstops _ hop)
        obtain ⟨r, hr, hrbare, hrrest⟩ := hoperand right us₃ t tail hright hus₃ ht
        obtain ⟨next, hnext, hvalue, hrest⟩ := chain_step hlrest hop hr
        refine ⟨next, hl.trans hnext, ?_, hrest.trans hrrest⟩
        rw [hvalue, Parser.operation, Expr.bare, hlbare, hrbare]
        rfl
    | _ =>
      intro us t tail he hus ht
      obtain hwhole | ⟨_, _, _, _, heq, -⟩ := hgood _ he
      · exact hbase _ us t tail hwhole hus ht
      · cases heq
  intro e us t tail he hus ht
  obtain ⟨left, hleft, hbare, hrest⟩ := hchain e us t tail he hus ht.1
  exact ⟨left, hleft.trans (chain_stop hrest ht.2), hbare, hrest⟩

lemma product_readsBack :
    ReadsBack (fun k => k ≠ .power ∧ k.isMultiplicative = false) NormalTerm
      (product file fault) := by
  refine chain_readsBack power_readsBack ?_ ?_
  · rintro op hop rfl
    cases hop
  · rintro e ⟨hnormal, hsum⟩
    cases e with
    | number span digits => exact .inl ⟨rfl, rfl⟩
    | binary span op left right =>
      obtain ⟨hleft, hright, ⟨hop, -⟩ | ⟨hop, hleftSum, hrightFactor⟩ | ⟨rfl, -, -⟩⟩ :=
        isNormal_binary.mp hnormal
      · rw [Expr.isSum, hop] at hsum
        cases hsum
      · exact .inr ⟨span, op, left, right, rfl, hop, ⟨hleft, hleftSum⟩, hright, hrightFactor⟩
      · exact .inl ⟨hnormal, rfl⟩
    | foreign span node => cases hnormal

lemma sum_readsBack :
    ReadsBack (fun k => k.isOperator = false) (fun e => e.isNormal) (sum file fault) := by
  have hchain : ReadsBack (fun k => (k ≠ .power ∧ k.isMultiplicative = false) ∧
      k.isAdditive = false) (fun e => e.isNormal) (sum file fault) := by
    refine chain_readsBack product_readsBack ?_ ?_
    · intro op hop
      cases op <;> simp_all [TokenKind.isAdditive, TokenKind.isMultiplicative]
    · intro e hnormal
      by_cases hsum : e.isSum
      · cases e with
        | binary span op left right =>
          obtain ⟨hleft, hright, ⟨hop, hrightSum⟩ | ⟨hop, -, -⟩ | ⟨rfl, -, -⟩⟩ :=
            isNormal_binary.mp hnormal
          · exact .inr ⟨span, op, left, right, rfl, hop, hleft, hright, hrightSum⟩
          · rw [Expr.isSum, not_additive_of_multiplicative hop] at hsum
            cases hsum
          · cases hsum
        | _ => cases hsum
      · exact .inl ⟨hnormal, by simpa using hsum⟩
  intro e us t tail he hus ht
  refine hchain e us t tail he hus ?_
  have hnot : ¬(t.kind.isAdditive ∨ t.kind.isMultiplicative ∨ t.kind = .power) := by
    rw [← isOperator_iff, ht]
    exact Bool.false_ne_true
  simp only [not_or, Bool.not_eq_true] at hnot
  exact ⟨⟨hnot.2.2, hnot.2.1⟩, hnot.1⟩

lemma expect_cons {kind : TokenKind} {t : Token} (ht : t.kind = kind) (rest : List Token) :
    expect file fault kind (t :: rest) = .ok ⟨t, rest, t, List.suffix_refl _⟩ := by
  change (if t.kind = kind then _ else _) = _
  rw [if_pos ht]
  rfl

lemma statement_cons (t : Token) (rest : List Token) :
    statement file fault (t :: rest) = match t.kind with
      | .hi => greeting file fault (t :: rest)
      | .number => evaluation file fault (t :: rest)
      | .print => printing file fault (t :: rest)
      | _ => refuse file t [.hi, .number, .print] := rfl

lemma statement_readsBack {s : Stmt} {us : List Token} {t : Token} (tail : List Token)
    (hs : s.isNormal) (hus : us.map Token.lexeme = s.lexemes) (ht : t.kind.isOperator = false) :
    ∃ r : Reading Stmt (us ++ t :: tail), statement file fault (us ++ t :: tail) = .ok r ∧
      r.value.bare = s.bare ∧ r.rest = t :: tail := by
  cases s with
  | greet span name =>
    obtain ⟨hi, us', rfl, hhi, hus'⟩ := List.map_eq_cons_iff.mp hus
    obtain ⟨text, rfl, htext⟩ := List.map_eq_singleton_iff.mp hus'
    obtain ⟨hkind, -⟩ := Prod.mk.inj hhi
    obtain ⟨htextKind, rfl⟩ := Prod.mk.inj htext
    rw [List.cons_append, List.cons_append, List.nil_append, statement_cons, hkind, greeting]
    change ∃ r, (expect file fault .hi (hi :: text :: t :: tail) >>= _) = _ ∧ _
    rw [expect_cons hkind, ok_bind]
    change ∃ r, (expect file fault .string (text :: t :: tail) >>= _) = _ ∧ _
    rw [expect_cons htextKind, ok_bind]
    exact ⟨_, rfl, rfl, rfl⟩
  | print span value =>
    obtain ⟨word, us', rfl, hword, hus'⟩ := List.map_eq_cons_iff.mp hus
    obtain ⟨hkind, -⟩ := Prod.mk.inj hword
    obtain ⟨r, hr, hbare, hrest⟩ := sum_readsBack value us' t tail hs hus' ht
    rw [List.cons_append, statement_cons, hkind]
    change ∃ r, (expect file fault .print (word :: (us' ++ t :: tail)) >>= _) = _ ∧ _
    rw [expect_cons hkind, ok_bind]
    change ∃ r, (sum file fault (us' ++ t :: tail) >>= _) = _ ∧ _
    rw [hr, ok_bind]
    exact ⟨_, rfl, congrArg (Stmt.print default) hbare, hrest⟩
  | evaluate span value =>
    obtain ⟨r, hr, hbare, hrest⟩ := sum_readsBack value us t tail hs hus ht
    obtain ⟨digits, ls, hls⟩ := lexemes_of_isNormal hs
    obtain ⟨n, us', rfl, hn, -⟩ := List.map_eq_cons_iff.mp (hus.trans hls)
    obtain ⟨hkind, -⟩ := Prod.mk.inj hn
    rw [List.cons_append, statement_cons, hkind]
    change ∃ r, (sum file fault (n :: us' ++ t :: tail) >>= _) = _ ∧ _
    rw [hr, ok_bind]
    exact ⟨_, rfl, congrArg (Stmt.evaluate default) hbare, hrest⟩
  | foreign span node => cases hs

/-- No normal statement starts with an operator or with the end of the text. -/
lemma lexemes_of_stmt_isNormal {s : Stmt} (h : s.isNormal) :
    ∃ l rest, s.lexemes = l :: rest ∧ l.1.isOperator = false ∧ l.1 ≠ .eof := by
  cases s with
  | greet span name => exact ⟨_, _, rfl, rfl, nofun⟩
  | print span value => exact ⟨_, _, rfl, rfl, nofun⟩
  | evaluate span value =>
    obtain ⟨digits, rest, hrest⟩ := lexemes_of_isNormal h
    exact ⟨_, _, hrest, rfl, nofun⟩
  | foreign span node => cases h

/-- What follows a statement does not continue its expression. -/
lemma starts_without_operator {body : List Stmt} {us : List Token} {last : Token}
    (hbody : ∀ s ∈ body, s.isNormal) (hus : us.map Token.lexeme = body.flatMap Stmt.lexemes)
    (hlast : last.kind = .eof) :
    ∃ t tail, us ++ [last] = t :: tail ∧ t.kind.isOperator = false := by
  cases body with
  | nil =>
    obtain rfl := List.map_eq_nil_iff.mp hus
    exact ⟨last, [], rfl, by rw [hlast]; rfl⟩
  | cons s body =>
    obtain ⟨l, rest, hl, hop, -⟩ := lexemes_of_stmt_isNormal (hbody s List.mem_cons_self)
    rw [List.flatMap_cons, hl, List.cons_append] at hus
    obtain ⟨t, us', rfl, ht, -⟩ := List.map_eq_cons_iff.mp hus
    refine ⟨t, us' ++ [last], rfl, ?_⟩
    rwa [← ht] at hop

lemma statements_readBack {body : List Stmt} {us : List Token} {last : Token}
    (hbody : ∀ s ∈ body, s.isNormal) (hus : us.map Token.lexeme = body.flatMap Stmt.lexemes)
    (hlast : last.kind = .eof) :
    ∃ body', statements file fault (us ++ [last]) = .ok body' ∧
      body'.map Stmt.bare = body.map Stmt.bare := by
  induction body generalizing us with
  | nil =>
    obtain rfl := List.map_eq_nil_iff.mp hus
    refine ⟨[], ?_, rfl⟩
    rw [List.nil_append, statements]
    change (if last.kind = .eof then _ else _) = _
    rw [if_pos hlast]
    rfl
  | cons s body ih =>
    obtain ⟨hs, hbody⟩ := List.forall_mem_cons.mp hbody
    rw [List.flatMap_cons] at hus
    obtain ⟨us₁, us₂, rfl, hus₁, hus₂⟩ := List.map_eq_append_iff.mp hus
    obtain ⟨t, tail, htail, ht⟩ := starts_without_operator hbody hus₂ hlast
    obtain ⟨r, hr, hbare, hrest⟩ := statement_readsBack tail hs hus₁ ht
    obtain ⟨body', hbody', hbares⟩ := ih hbody hus₂
    obtain ⟨l, ls, hl, -, heof⟩ := lexemes_of_stmt_isNormal hs
    obtain ⟨n, us', rfl, hn, -⟩ := List.map_eq_cons_iff.mp (hus₁.trans hl)
    have hkind : n.kind ≠ .eof := by rwa [← hn] at heof
    refine ⟨r.value :: body', ?_, ?_⟩
    · rw [List.append_assoc, htail, statements]
      change (if n.kind = .eof then _ else statement file fault (n :: us' ++ t :: tail) >>= _) = _
      rw [htail] at hbody'
      rw [if_neg hkind, hr, ok_bind, hrest, hbody']
      rfl
    · rw [List.map_cons, hbare, hbares, List.map_cons]

end

/-! ### The kinds of normal trees -/

lemma ExprKinds.append {es fs : List TokenKind} {op : TokenKind} (he : ExprKinds es)
    (hop : op.isOperator) (hf : ExprKinds fs) : ExprKinds (es ++ op :: fs) := by
  induction he with
  | number => exact .operation hop hf
  | operation hop' _ ih => exact .operation hop' ih

lemma exprKinds_of_isNormal {e : Expr} (h : e.isNormal) : ExprKinds (e.lexemes.map Prod.fst) := by
  induction e with
  | number span digits => exact .number
  | binary span op left right ihleft ihright =>
    obtain ⟨hleft, hright, hoperation⟩ := isNormal_binary.mp h
    rw [Expr.lexemes, List.map_append, List.map_cons]
    exact (ihleft hleft).append hoperation.isOperator (ihright hright)
  | foreign span node => cases h

lemma programKinds_of_isNormal {body : List Stmt} (h : ∀ s ∈ body, s.isNormal) :
    ProgramKinds ((body.flatMap Stmt.lexemes).map Prod.fst) := by
  induction body with
  | nil => exact .nil
  | cons s body ih =>
    obtain ⟨hs, hbody⟩ := List.forall_mem_cons.mp h
    rw [List.flatMap_cons, List.map_append]
    cases s with
    | greet span name => exact .greeting (ih hbody)
    | print span value => exact .printing (exprKinds_of_isNormal hs) (ih hbody)
    | evaluate span value => exact .evaluation (exprKinds_of_isNormal hs) (ih hbody)
    | foreign span node => cases hs

/-- A number and an operator put before an expression. They go down the left edge to where the
operator binds at least as tightly as the one met there. -/
def Expr.prepend (digits : String) (op : TokenKind) : Expr → Expr
  | binary span op' left right =>
    if op'.isAdditive || op'.isMultiplicative && !op.isAdditive then
      binary span op' (left.prepend digits op) right
    else binary default op (number default digits) (binary span op' left right)
  | e => binary default op (number default digits) e

lemma lexemes_prepend (digits : String) (op : TokenKind) (e : Expr) :
    (e.prepend digits op).lexemes = (.number, digits) :: (op, "") :: e.lexemes := by
  induction e with
  | binary span op' left right ihleft ihright =>
    rw [Expr.prepend]
    split
    · rw [Expr.lexemes, ihleft, Expr.lexemes]
      rfl
    · rfl
  | _ => rfl

lemma isNormal_number_operation {digits : String} {op : TokenKind} {e : Expr}
    (hop : op.isOperator) (he : e.isNormal) (hsum : e.isSum = false)
    (hfactor : op.isAdditive = false → e.isFactor) :
    (Expr.binary default op (.number default digits) e).isNormal := by
  refine isNormal_binary.mpr ⟨rfl, he, ?_⟩
  obtain hop | hop | rfl := isOperator_iff.mp hop
  · exact .sum hop hsum
  · exact .product hop rfl (hfactor (not_additive_of_multiplicative hop))
  · exact .power rfl rfl (hfactor rfl)

lemma isNormal_prepend {digits : String} {op : TokenKind} {e : Expr} (hop : op.isOperator)
    (he : e.isNormal) : (e.prepend digits op).isNormal ∧
      (op.isAdditive = false → e.isSum = false → (e.prepend digits op).isSum = false) := by
  induction e with
  | number span digits' =>
    exact ⟨isNormal_number_operation hop rfl rfl fun _ => rfl, fun hadditive _ => hadditive⟩
  | binary span op' left right ihleft ihright =>
    obtain ⟨hleft, hright, hoperation⟩ := isNormal_binary.mp he
    obtain ⟨hnormal, hsum⟩ := ihleft hleft
    obtain ⟨hop', hrightSum⟩ | ⟨hop', hleftSum, hrightFactor⟩ | ⟨rfl, hnumber, hfactor⟩ :=
      hoperation
    · rw [Expr.prepend, if_pos (by rw [hop']; rfl)]
      refine ⟨isNormal_binary.mpr ⟨hnormal, hright, .sum hop' hrightSum⟩, fun _ habsurd => ?_⟩
      rw [Expr.isSum, hop'] at habsurd
      cases habsurd
    · have hterm : op'.isAdditive = false := not_additive_of_multiplicative hop'
      by_cases hadditive : op.isAdditive
      · rw [Expr.prepend, if_neg (by simp [hterm, hadditive])]
        refine ⟨isNormal_number_operation hop he hterm fun habsurd => ?_, fun habsurd => ?_⟩
        · rw [hadditive] at habsurd
          cases habsurd
        · rw [hadditive] at habsurd
          cases habsurd
      · have hadditive' : op.isAdditive = false := by simpa using hadditive
        rw [Expr.prepend, if_pos (by simp [hop', hadditive'])]
        exact ⟨isNormal_binary.mpr ⟨hnormal, hright, .product hop' (hsum hadditive' hleftSum)
          hrightFactor⟩, fun _ _ => hterm⟩
    · rw [Expr.prepend, if_neg (by exact Bool.false_ne_true)]
      exact ⟨isNormal_number_operation hop he rfl fun _ => rfl, fun hadditive _ => hadditive⟩
  | foreign span node => cases he

/-- Tokens of the right kinds are the lexemes of a normal expression. -/
lemma exists_expr_of_exprKinds {us : List Token} (hregular : ∀ t ∈ us, t.Regular)
    (h : ExprKinds (us.map Token.kind)) :
    ∃ e : Expr, e.isNormal ∧ us.map Token.lexeme = e.lexemes := by
  generalize hks : us.map Token.kind = ks at h
  induction h generalizing us with
  | number =>
    obtain ⟨n, rfl, hn⟩ := List.map_eq_singleton_iff.mp hks
    exact ⟨.number default n.value, rfl, by rw [List.map_singleton, Token.lexeme, hn]; rfl⟩
  | operation hop _ ih =>
    obtain ⟨n, us', rfl, hn, hks'⟩ := List.map_eq_cons_iff.mp hks
    obtain ⟨o, us'', rfl, rfl, hks''⟩ := List.map_eq_cons_iff.mp hks'
    obtain ⟨-, ho, hrest⟩ := List.forall_mem_cons.mp hregular |>.imp id List.forall_mem_cons.mp
    obtain ⟨e, he, hus⟩ := ih hrest hks''
    refine ⟨e.prepend n.value o.kind, (isNormal_prepend hop he).1, ?_⟩
    rw [lexemes_prepend, ← hus, List.map_cons, List.map_cons, Token.lexeme, Token.lexeme, hn,
      value_of_isOperator ho hop]

lemma exists_body_of_programKinds {us : List Token} (hregular : ∀ t ∈ us, t.Regular)
    (h : ProgramKinds (us.map Token.kind)) :
    ∃ body : List Stmt, (∀ s ∈ body, s.isNormal) ∧
      us.map Token.lexeme = body.flatMap Stmt.lexemes := by
  generalize hks : us.map Token.kind = ks at h
  induction h generalizing us with
  | nil =>
    obtain rfl := List.map_eq_nil_iff.mp hks
    exact ⟨[], nofun, rfl⟩
  | greeting _ ih =>
    obtain ⟨hi, us', rfl, hhi, hks'⟩ := List.map_eq_cons_iff.mp hks
    obtain ⟨name, us'', rfl, hname, hks''⟩ := List.map_eq_cons_iff.mp hks'
    rw [List.forall_mem_cons, List.forall_mem_cons] at hregular
    obtain ⟨hword, -, hrest⟩ := hregular
    obtain ⟨body, hbody, hus⟩ := ih hrest hks''
    refine ⟨.greet default name.value :: body, List.forall_mem_cons.mpr ⟨rfl, hbody⟩, ?_⟩
    rw [Token.Regular, hhi] at hword
    rw [List.flatMap_cons, ← hus, List.map_cons, List.map_cons, Token.lexeme, Token.lexeme, hhi,
      hword, hname]
    rfl
  | printing he _ ih =>
    obtain ⟨word, us', rfl, hkind, hks'⟩ := List.map_eq_cons_iff.mp hks
    obtain ⟨us₁, us₂, rfl, rfl, hks₂⟩ := List.map_eq_append_iff.mp hks'
    rw [List.forall_mem_cons, List.forall_mem_append] at hregular
    obtain ⟨hword, hregular₁, hregular₂⟩ := hregular
    obtain ⟨e, hnormal, hus₁⟩ := exists_expr_of_exprKinds hregular₁ he
    obtain ⟨body, hbody, hus₂⟩ := ih hregular₂ hks₂
    refine ⟨.print default e :: body, List.forall_mem_cons.mpr ⟨hnormal, hbody⟩, ?_⟩
    rw [Token.Regular, hkind] at hword
    rw [List.flatMap_cons, ← hus₂, List.map_cons, List.map_append, hus₁, Token.lexeme, hkind,
      hword]
    rfl
  | evaluation he _ ih =>
    obtain ⟨us₁, us₂, rfl, rfl, hks₂⟩ := List.map_eq_append_iff.mp hks
    obtain ⟨hregular₁, hregular₂⟩ := List.forall_mem_append.mp hregular
    obtain ⟨e, hnormal, hus₁⟩ := exists_expr_of_exprKinds hregular₁ he
    obtain ⟨body, hbody, hus₂⟩ := ih hregular₂ hks₂
    refine ⟨.evaluate default e :: body, List.forall_mem_cons.mpr ⟨hnormal, hbody⟩, ?_⟩
    rw [List.flatMap_cons, ← hus₂, List.map_append, hus₁]
    rfl

/-! ### Texts -/

section

variable {text file : String} {ts : List Token} {last : Token}

lemma exists_tokens_of_parse {p : Program} (h : Program.parse text file = .ok p) :
    ∃ ts last, (Cursor.ofText text file).tokens.1 = (ts ++ [last], none) := by
  have hwalk := parse_eq_program (Cursor.ofText text file) rfl
  change program _ _ _ = (Program.parse text file).mapError some at hwalk
  rw [h] at hwalk
  have hfault := fault_eq_none_of_program_ok hwalk
  have hends : EndsProperly (Cursor.ofText text file).tokens.1.1
      (Cursor.ofText text file).tokens.1.2 := Cursor.tokens_endsProperly rfl
  rw [hfault] at hends
  obtain ⟨ts, last, hts, -, -⟩ := hends
  exact ⟨ts, last, Prod.ext hts hfault⟩

lemma kind_of_tokens (h : (Cursor.ofText text file).tokens.1 = (ts ++ [last], none)) :
    last.kind = .eof ∧ ∀ t ∈ ts, t.kind ≠ .eof := by
  obtain ⟨before, last', heq, hlast, hbefore⟩ := Cursor.tokens_endsProperly h
  obtain ⟨rfl, ⟨rfl⟩⟩ := List.append_inj' heq rfl
  exact ⟨hlast, hbefore⟩

lemma program_of_tokens (h : (Cursor.ofText text file).tokens.1 = (ts ++ [last], none)) :
    program (Cursor.ofText text file).file none (ts ++ [last]) =
      (Program.parse text file).mapError some := by
  have hwalk := parse_eq_program (Cursor.ofText text file) rfl
  rw [h] at hwalk
  exact hwalk

/-- A normal program with the lexemes of the text is what the text is parsed to. -/
lemma parse_readsBack (h : (Cursor.ofText text file).tokens.1 = (ts ++ [last], none))
    {q : Program} (hnormal : q.isNormal) (hlexemes : q.lexemes = ts.map Token.lexeme) :
    ∃ p, Program.parse text file = .ok p ∧ p.bare = q.bare := by
  obtain ⟨hlast, -⟩ := kind_of_tokens h
  have hwalk := program_of_tokens h
  obtain ⟨body, hbody, hbare⟩ : ∃ body,
      statements (Cursor.ofText text file).file none (ts ++ [last]) = .ok body ∧
      body.map Stmt.bare = q.body.map Stmt.bare :=
    statements_readBack (List.all_eq_true.mp hnormal) hlexemes.symm hlast
  rw [program, hbody, ok_bind] at hwalk
  cases hparse : Program.parse text file with
  | error e =>
    rw [hparse] at hwalk
    cases hwalk
  | ok p =>
    rw [hparse] at hwalk
    cases hwalk
    refine ⟨_, rfl, ?_⟩
    rw [Program.bare, Program.bare, hbare]

lemma eq_of_append_singleton {α : Type} {xs ys zs : List α} {x y : α}
    (h : xs ++ [x] = ys ++ y :: zs) (hy : y ∉ xs) : ys = xs := by
  obtain ⟨as, rfl, has⟩ | ⟨as, rfl, has⟩ := List.append_eq_append_iff.mp h
  · cases as with
    | nil => rw [List.append_nil]
    | cons a as => simp at has
  · cases as with
    | nil => rw [List.append_nil]
    | cons a as =>
      obtain ⟨rfl, -⟩ := List.cons.inj has
      simp at hy

/-- A text is parsed to a normal program with the lexemes of the text. -/
lemma parse_reads (h : (Cursor.ofText text file).tokens.1 = (ts ++ [last], none))
    {p : Program} (hp : Program.parse text file = .ok p) :
    p.isNormal ∧ p.lexemes = ts.map Token.lexeme := by
  obtain ⟨hlast, hkinds⟩ := kind_of_tokens h
  have hwalk := program_of_tokens h
  rw [hp] at hwalk
  obtain ⟨body, hbody, hprogram⟩ := bind_eq_ok.mp hwalk
  cases hprogram
  obtain ⟨last', rest, hlast', hspells, hall⟩ := statements_read (Cursor.tokens_regular h) hbody
  refine ⟨hall, ?_⟩
  unfold Spells at hspells
  rw [List.map_append, List.map_singleton, List.map_cons] at hspells
  -- the end of the text stands after all other tokens, so what was read is all of them
  refine eq_of_append_singleton hspells ?_
  intro hmem
  obtain ⟨t, ht, htlast⟩ := List.mem_map.mp hmem
  exact hkinds t ht ((Prod.mk.inj htlast).1.trans hlast')

end

/-- The grammar is the set of token sequences that are accepted, and the tree is the only one in
normal form with the lexemes of the text. -/
theorem parse_accepts_grammar (text file : String) (ts : List Token) (last : Token)
    (h : (Cursor.ofText text file).tokens.1 = (ts ++ [last], none)) :
    last.kind = .eof ∧
      ((∃ p, Program.parse text file = .ok p) ↔ ProgramKinds (ts.map Token.kind)) ∧
      (∀ p, Program.parse text file = .ok p →
        p.lexemes = ts.map Token.lexeme ∧ p.isNormal ∧
        ∀ q : Program, q.lexemes = ts.map Token.lexeme → q.isNormal → q.bare = p.bare) ∧
      (ProgramKinds (ts.map Token.kind) →
        ∃! b : Program, b.bare = b ∧ b.lexemes = ts.map Token.lexeme ∧ b.isNormal) := by
  have hkinds : ts.map Token.kind = (ts.map Token.lexeme).map Prod.fst := by
    rw [List.map_map]
    rfl
  have hunique : ∀ p, Program.parse text file = .ok p → ∀ q : Program,
      q.lexemes = ts.map Token.lexeme → q.isNormal → q.bare = p.bare := by
    intro p hp q hlexemes hnormal
    obtain ⟨p', hp', hbare⟩ := parse_readsBack h hnormal hlexemes
    rw [hp] at hp'
    cases hp'
    exact hbare.symm
  have haccepts : ProgramKinds (ts.map Token.kind) → ∃ p, Program.parse text file = .ok p := by
    intro hgrammar
    have hregular : ∀ t ∈ ts, t.Regular :=
      fun t ht => Cursor.tokens_regular h t (List.mem_append_left _ ht)
    obtain ⟨body, hbody, hlexemes⟩ := exists_body_of_programKinds hregular hgrammar
    have hnormal : (⟨default, body⟩ : Program).isNormal := List.all_eq_true.mpr hbody
    obtain ⟨p, hp, -⟩ := parse_readsBack h hnormal hlexemes.symm
    exact ⟨p, hp⟩
  refine ⟨(kind_of_tokens h).1, ⟨?_, haccepts⟩, ?_, ?_⟩
  · rintro ⟨p, hp⟩
    obtain ⟨hnormal, hlexemes⟩ := parse_reads h hp
    rw [hkinds, ← hlexemes]
    exact programKinds_of_isNormal (List.all_eq_true.mp hnormal)
  · intro p hp
    obtain ⟨hnormal, hlexemes⟩ := parse_reads h hp
    exact ⟨hlexemes, hnormal, hunique p hp⟩
  · intro hgrammar
    obtain ⟨p, hp⟩ := haccepts hgrammar
    obtain ⟨hnormal, hlexemes⟩ := parse_reads h hp
    refine ⟨p.bare, ⟨p.bare_bare, ?_, ?_⟩, ?_⟩
    · rw [p.lexemes_bare, hlexemes]
    · rw [p.isNormal_bare, hnormal]
    · rintro q ⟨hbare, hlexemes', hnormal'⟩
      rw [← hbare]
      exact hunique p hp q hlexemes' hnormal'

/-- Two statements stand side by side in `1-2 3`: a difference, then a number. -/
theorem parse_accepts_difference_then_number :
    (Cursor.ofText "1-2 3" "").tokens.1 =
      ([⟨.number, "1", ⟨⟨-1, 1, 0⟩, ⟨0, 1, 1⟩⟩⟩, ⟨.minus, "", ⟨⟨0, 1, 1⟩, ⟨1, 1, 2⟩⟩⟩,
        ⟨.number, "2", ⟨⟨1, 1, 2⟩, ⟨2, 1, 3⟩⟩⟩, ⟨.number, "3", ⟨⟨3, 1, 4⟩, ⟨4, 1, 5⟩⟩⟩] ++
        [⟨.eof, "", .point ⟨4, 1, 5⟩⟩], none) ∧
      ((∃ p, Program.parse "1-2 3" "" = .ok p) ↔
        ProgramKinds [.number, .minus, .number, .number]) := by
  have h : (Cursor.ofText "1-2 3" "").tokens.1 =
      ([⟨.number, "1", ⟨⟨-1, 1, 0⟩, ⟨0, 1, 1⟩⟩⟩, ⟨.minus, "", ⟨⟨0, 1, 1⟩, ⟨1, 1, 2⟩⟩⟩,
        ⟨.number, "2", ⟨⟨1, 1, 2⟩, ⟨2, 1, 3⟩⟩⟩, ⟨.number, "3", ⟨⟨3, 1, 4⟩, ⟨4, 1, 5⟩⟩⟩] ++
        [⟨.eof, "", .point ⟨4, 1, 5⟩⟩], none) := by decide
  exact ⟨h, (parse_accepts_grammar _ _ _ _ h).2.1⟩

end HiToolchain
