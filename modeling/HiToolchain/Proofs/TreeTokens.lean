import HiToolchain.Proofs.Grammar

/-!
# The tokens of a node

Each node of a tree that was read stands for tokens that are next to one another, and it has its
span from the first and the last of them. The walk over the tokens builds its trees in this way at
every level, so what is known of the tokens can be carried over to the nodes.
-/

namespace HiToolchain

open TokenWalk

/-- The expression was read from these tokens, with its spans from theirs. -/
inductive Expr.ReadFrom : Expr → List Token → Prop
  | number {t : Token} (ht : t.kind = .number) : ReadFrom (.number t.span t.value) [t]
  | operation {left right : Expr} {us vs : List Token} {op : Token} (hleft : ReadFrom left us)
      (hop : op.kind.isOperator) (hright : ReadFrom right vs) :
      ReadFrom (Parser.operation op.kind left right) (us ++ op :: vs)

inductive Stmt.ReadFrom : Stmt → List Token → Prop
  | greet {word name : Token} (hword : word.kind = .hi) (hname : name.kind = .string) :
      ReadFrom (.greet ⟨word.span.start, name.span.stop⟩ name.value) [word, name]
  | print {word : Token} {value : Expr} {us : List Token} (hword : word.kind = .print)
      (hvalue : value.ReadFrom us) :
      ReadFrom (.print ⟨word.span.start, value.span.stop⟩ value) (word :: us)
  | evaluate {value : Expr} {us : List Token} (hvalue : value.ReadFrom us) :
      ReadFrom (.evaluate value.span value) us

/-- The statements were read one after the other from these tokens. -/
inductive StmtsReadFrom : List Stmt → List Token → Prop
  | nil : StmtsReadFrom [] []
  | cons {s : Stmt} {body : List Stmt} {us vs : List Token} (hs : s.ReadFrom us)
      (h : StmtsReadFrom body vs) : StmtsReadFrom (s :: body) (us ++ vs)

/-! ### The walk reads nodes from their tokens -/

/-- The tokens before the rest are those that the value was read from. -/
def TokenWalk.Reading.Traced {α : Type} (readFrom : α → List Token → Prop) {ts : List Token}
    (r : Reading α ts) : Prop :=
  ∃ us, ts = us ++ r.rest ∧ readFrom r.value us

section

variable {file : String} {fault : Option LexFault} {ts : List Token}

lemma number_traced {r : Reading Expr ts} (h : number file fault ts = .ok r) :
    r.Traced Expr.ReadFrom := by
  obtain ⟨t, ht, h⟩ := bind_eq_ok.mp h
  obtain ⟨hts, hkind⟩ := expect_ok ht
  cases h
  exact ⟨[t.value], hts, .number hkind⟩

lemma operation_traced {left : Reading Expr ts} {op : Reading Token left.rest}
    {right : Reading Expr op.rest} (hleft : left.Traced Expr.ReadFrom)
    (hop : first fault left.rest = .ok op) (hkind : op.value.kind.isOperator)
    (hright : right.Traced Expr.ReadFrom) :
    ((left.andThen (op.andThen right)).map
      (Parser.operation op.value.kind left.value)).Traced Expr.ReadFrom := by
  obtain ⟨us, hus, hl⟩ := hleft
  obtain ⟨vs, hvs, hr⟩ := hright
  refine ⟨us ++ op.value :: vs, ?_, hl.operation hkind hr⟩
  calc ts = us ++ left.rest := hus
    _ = us ++ op.value :: op.rest := congrArg (us ++ ·) (first_eq hop)
    _ = us ++ op.value :: (vs ++ right.rest) := congrArg (us ++ op.value :: ·) hvs
    _ = (us ++ op.value :: vs) ++ right.rest := by rw [List.append_assoc, List.cons_append]

lemma power_traced {r : Reading Expr ts} (h : power file fault ts = .ok r) :
    r.Traced Expr.ReadFrom := by
  induction ts using power.induct with
  | case1 ts ih =>
    rw [power] at h
    obtain ⟨left, hleft, h⟩ := bind_eq_ok.mp h
    obtain ⟨op, hop, h⟩ := bind_eq_ok.mp h
    split at h
    · next hkind =>
      obtain ⟨right, hright, h⟩ := bind_eq_ok.mp h
      cases h
      exact operation_traced (number_traced hleft) hop (by rw [hkind]; rfl) (ih left op hright)
    · cases h
      exact number_traced hleft

lemma chain_traced {isOp : TokenKind → Bool} {operand : (ts : List Token) → Outcome Expr ts}
    (hisOp : ∀ op, isOp op → op.isOperator)
    (hoperand : ∀ (ts : List Token) (r : Reading Expr ts), operand ts = .ok r →
      r.Traced Expr.ReadFrom)
    {left : Reading Expr ts} (hleft : left.Traced Expr.ReadFrom) {r : Reading Expr ts}
    (h : chain fault isOp operand left = .ok r) : r.Traced Expr.ReadFrom := by
  induction left using chain.induct with
  | case1 left ih =>
    rw [chain] at h
    obtain ⟨op, hop, h⟩ := bind_eq_ok.mp h
    split at h
    · next hkind =>
      obtain ⟨right, hright, h⟩ := bind_eq_ok.mp h
      refine ih op right ?_ h
      exact operation_traced hleft hop (hisOp _ hkind) (hoperand _ right hright)
    · cases h
      exact hleft

lemma product_traced {r : Reading Expr ts} (h : product file fault ts = .ok r) :
    r.Traced Expr.ReadFrom := by
  obtain ⟨left, hleft, h⟩ := bind_eq_ok.mp h
  exact chain_traced (fun _ h => isOperator_iff.mpr (.inr (.inl h)))
    (fun _ _ => power_traced) (power_traced hleft) h

lemma sum_traced {r : Reading Expr ts} (h : sum file fault ts = .ok r) :
    r.Traced Expr.ReadFrom := by
  obtain ⟨left, hleft, h⟩ := bind_eq_ok.mp h
  exact chain_traced (fun _ h => isOperator_iff.mpr (.inl h))
    (fun _ _ => product_traced) (product_traced hleft) h

lemma statement_traced {r : Reading Stmt ts} (h : statement file fault ts = .ok r) :
    r.Traced Stmt.ReadFrom := by
  obtain ⟨t, ht, h⟩ := bind_eq_ok.mp h
  split at h
  · obtain ⟨word, hword, h⟩ := bind_eq_ok.mp h
    obtain ⟨name, hname, h⟩ := bind_eq_ok.mp h
    cases h
    obtain ⟨hts, hwordKind⟩ := expect_ok hword
    obtain ⟨hrest, hnameKind⟩ := expect_ok hname
    have htokens : ts = word.value :: name.value :: name.rest :=
      hts.trans (congrArg (word.value :: ·) hrest)
    exact ⟨[word.value, name.value], htokens, .greet hwordKind hnameKind⟩
  · obtain ⟨value, hvalue, h⟩ := bind_eq_ok.mp h
    cases h
    obtain ⟨us, hus, hfrom⟩ := sum_traced hvalue
    exact ⟨us, hus, .evaluate hfrom⟩
  · obtain ⟨word, hword, h⟩ := bind_eq_ok.mp h
    obtain ⟨value, hvalue, h⟩ := bind_eq_ok.mp h
    cases h
    obtain ⟨hts, hkind⟩ := expect_ok hword
    obtain ⟨us, hus, hfrom⟩ := sum_traced hvalue
    have htokens : ts = word.value :: (us ++ value.rest) :=
      hts.trans (congrArg (word.value :: ·) hus)
    exact ⟨word.value :: us, htokens, .print hkind hfrom⟩
  · cases h

lemma statements_traced {body : List Stmt} (h : statements file fault ts = .ok body) :
    ∃ us last rest, ts = us ++ last :: rest ∧ last.kind = .eof ∧ StmtsReadFrom body us := by
  induction ts using statements.induct generalizing body with
  | case1 ts ih =>
    rw [statements] at h
    obtain ⟨t, ht, h⟩ := bind_eq_ok.mp h
    split at h
    · next hkind =>
      cases h
      exact ⟨[], t.value, t.rest, first_eq ht, hkind, .nil⟩
    · obtain ⟨s, hs, h⟩ := bind_eq_ok.mp h
      obtain ⟨body, hbody, h⟩ := bind_eq_ok.mp h
      cases h
      obtain ⟨us, hts, hfrom⟩ := statement_traced hs
      obtain ⟨vs, last, rest, hrest, hlast, hbodyFrom⟩ := ih s hbody
      refine ⟨us ++ vs, last, rest, ?_, hlast, .cons hfrom hbodyFrom⟩
      rw [List.append_assoc, ← hrest]
      exact hts

end

/-- The statements of a text were read from all its tokens but the end, and the program runs from
the start of the text to the end of its last statement. -/
lemma parse_traced {text file : String} {p : Program} (h : Program.parse text file = .ok p) :
    ∃ ts last, (Cursor.ofText text file).tokens.1 = (ts ++ [last], none) ∧
      StmtsReadFrom p.body ts ∧ p.span = ⟨.start, lastStop .start p.body⟩ := by
  obtain ⟨ts, last, htokens⟩ := exists_tokens_of_parse h
  obtain ⟨-, hbefore⟩ := kind_of_tokens htokens
  have hprogram := program_of_tokens htokens
  rw [h] at hprogram
  obtain ⟨body, hbody, hp⟩ := bind_eq_ok.mp hprogram
  cases hp
  obtain ⟨us, last', rest, hus, hlast', hfrom⟩ := statements_traced hbody
  -- the walk stops at the end of the text, which no other token is
  have hnotin : last' ∉ ts := fun hmem => hbefore last' hmem hlast'
  obtain rfl := eq_of_append_singleton hus hnotin
  exact ⟨us, last, htokens, hfrom, rfl⟩

/-! ### Nodes that were read from the same tokens -/

lemma Expr.ReadFrom.lexemes {e : Expr} {us : List Token} (h : e.ReadFrom us)
    (hregular : ∀ t ∈ us, t.Regular) : us.map Token.lexeme = e.lexemes := by
  induction h with
  | number ht => rw [List.map_singleton, Token.lexeme, ht, Expr.lexemes]
  | operation hleft hop hright ihleft ihright =>
    rw [List.forall_mem_append, List.forall_mem_cons] at hregular
    obtain ⟨hus, hopRegular, hvs⟩ := hregular
    rw [List.map_append, List.map_cons, ihleft hus, ihright hvs, Token.lexeme,
      value_of_isOperator hopRegular hop]
    rfl

lemma Stmt.ReadFrom.lexemes {s : Stmt} {us : List Token} (h : s.ReadFrom us)
    (hregular : ∀ t ∈ us, t.Regular) : us.map Token.lexeme = s.lexemes := by
  cases h with
  | @greet word name hword hname =>
    have hvalue : word.value = "hi" := by
      have hwordRegular := hregular word List.mem_cons_self
      rwa [Token.Regular, hword] at hwordRegular
    simp [Token.lexeme, Stmt.lexemes, hword, hname, hvalue]
  | @print word value us hword hfrom =>
    rw [List.forall_mem_cons] at hregular
    have hvalue : word.value = "print" := by
      have hwordRegular := hregular.1
      rwa [Token.Regular, hword] at hwordRegular
    rw [List.map_cons, hfrom.lexemes hregular.2, Token.lexeme, hword, hvalue, Stmt.lexemes]
  | evaluate hfrom => exact hfrom.lexemes hregular

lemma Expr.ReadFrom.length {e : Expr} {us : List Token} (h : e.ReadFrom us) :
    us.length = e.bare.lexemes.length := by
  rw [Expr.lexemes_bare]
  induction h with
  | number ht => rfl
  | operation hleft hop hright ihleft ihright =>
    rw [List.length_append, List.length_cons, ihleft, ihright, Parser.operation, Expr.lexemes,
      List.length_append, List.length_cons]

/-- Two expressions of one shape that were read from the same tokens are the same, spans and
all. -/
lemma Expr.ReadFrom.eq_of_bare {e e' : Expr} {us us' : List Token} (h : e.ReadFrom us)
    (h' : e'.ReadFrom us') (hus : us = us') (hbare : e.bare = e'.bare) : e = e' := by
  induction h generalizing e' us' with
  | number ht =>
    cases h' with
    | number ht' =>
      cases hus
      rfl
    | operation _ _ _ => cases hbare
  | @operation left right us vs op hleft hop hright ihleft ihright =>
    cases h' with
    | number ht' => cases hbare
    | @operation left' right' us' vs' op' hleft' hop' hright' =>
      simp only [Parser.operation, Expr.bare, Expr.binary.injEq, true_and] at hbare
      obtain ⟨-, hbareLeft, hbareRight⟩ := hbare
      -- the tokens are divided at the same place, because the left operands have one shape
      have hlength : us.length = us'.length := by rw [hleft.length, hleft'.length, hbareLeft]
      obtain ⟨rfl, htail⟩ := List.append_inj hus hlength
      obtain ⟨rfl, rfl⟩ := List.cons.inj htail
      rw [ihleft hleft' rfl hbareLeft, ihright hright' rfl hbareRight]

lemma Stmt.ReadFrom.length {s : Stmt} {us : List Token} (h : s.ReadFrom us) :
    us.length = s.bare.lexemes.length := by
  cases h with
  | greet hword hname => rfl
  | print hword hvalue => rw [Stmt.bare, Stmt.lexemes, List.length_cons, hvalue.length]; rfl
  | evaluate hvalue => exact hvalue.length

lemma Stmt.ReadFrom.eq_of_bare {s s' : Stmt} {us : List Token} (h : s.ReadFrom us)
    (h' : s'.ReadFrom us) (hbare : s.bare = s'.bare) : s = s' := by
  cases h with
  | greet hword hname =>
    cases h' with
    | greet hword' hname' => rfl
    | print _ _ => cases hbare
    | evaluate _ => cases hbare
  | print hword hvalue =>
    cases h' with
    | greet _ _ => cases hbare
    | print hword' hvalue' => rw [hvalue.eq_of_bare hvalue' rfl (Stmt.print.inj hbare).2]
    | evaluate _ => cases hbare
  | evaluate hvalue =>
    cases h' with
    | greet _ _ => cases hbare
    | print _ _ => cases hbare
    | evaluate hvalue' => rw [hvalue.eq_of_bare hvalue' rfl (Stmt.evaluate.inj hbare).2]

/-- Statements that were read from the first tokens are the first statements read from all of
them, if these have the same shapes. -/
lemma StmtsReadFrom.split {body body' more : List Stmt} {us vs : List Token}
    (h : StmtsReadFrom body us) (h' : StmtsReadFrom body' (us ++ vs))
    (hbare : body'.map Stmt.bare = body.map Stmt.bare ++ more) :
    ∃ rest, body' = body ++ rest ∧ rest.map Stmt.bare = more := by
  induction h generalizing body' with
  | nil => exact ⟨body', rfl, hbare⟩
  | @cons s body us ws hs hbody ih =>
    rw [List.map_cons, List.cons_append] at hbare
    obtain ⟨s', body'', rfl, hs', hbody'⟩ := List.map_eq_cons_iff.mp hbare
    rw [List.append_assoc] at h'
    generalize htokens : us ++ (ws ++ vs) = ts at h'
    cases h' with
    | cons hfrom hrest =>
      obtain ⟨rfl, rfl⟩ := List.append_inj htokens (by rw [hs.length, hfrom.length, hs'])
      obtain ⟨rest, rfl, hmore⟩ := ih hrest hbody'
      exact ⟨rest, by rw [hs.eq_of_bare hfrom hs'.symm]; rfl, hmore⟩

end HiToolchain
