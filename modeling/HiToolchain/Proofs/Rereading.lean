import HiToolchain.Proofs.NodeSpans
import HiToolchain.Proofs.Progress

/-!
# How often the parser reads a token

The parser looks at tokens before it takes them, each level of an expression and the loop over
statements for itself. No token is read more than five times for that, however long or deep an
expression is: once a token is taken, what has been looked at is at most the token after it.
-/

namespace HiToolchain

/-- The token of an entry that notes one. -/
def LogEntry.token? : LogEntry → Option Token
  | .token t => some t
  | .statement _ _ => none

/-- What an entry says of a statement. -/
def LogEntry.statement? : LogEntry → Option (NodeKind × Span)
  | .token _ => none
  | .statement kind span => some (kind, span)

/-- As many copies of each item as its count says, up to the last count. -/
def repeated {α : Type} (items : List α) (counts : List Nat) : List α :=
  (items.zip counts).flatMap fun x => List.replicate x.2 x.1

/-- Reading on where `ts` are to come and the first of them was noted `k` times before. This notes
`new`, and then `ts'` are to come, with `k'` notes of their first. A token is looked at four times
at most before it is taken. -/
inductive Rereads : List Token → Nat → List Token → List Token → Nat → Prop
  | stay (ts : List Token) (k : Nat) : Rereads ts k [] ts k
  -- there is no first token that the counts could tell of
  | ended (k k' : Nat) : Rereads [] k [] [] k'
  | look {t : Token} {ts new ts' : List Token} {k k' : Nat} (hk : k < 4)
      (h : Rereads (t :: ts) (k + 1) new ts' k') : Rereads (t :: ts) k (t :: new) ts' k'
  | take {t : Token} {ts new ts' : List Token} {k k' : Nat} (h : Rereads ts 0 new ts' k') :
      Rereads (t :: ts) k (t :: new) ts' k'

namespace Rereads

variable {ts ts' ts'' new new' : List Token} {k k' k'' : Nat}

lemma of_nil (h : Rereads [] k' new ts k'') : Rereads [] k new ts k'' := by
  cases h with
  | stay => exact .ended _ _
  | ended => exact .ended _ _

lemma trans (h : Rereads ts k new ts' k') (h' : Rereads ts' k' new' ts'' k'') :
    Rereads ts k (new ++ new') ts'' k'' := by
  induction h with
  | stay ts k => exact h'
  | ended k k' => exact h'.of_nil
  | look hk h ih => exact .look hk (ih h')
  | take h ih => exact .take (ih h')

/-- What was taken has been noted. -/
lemma noted (h : Rereads ts k new ts' k') : ∃ us, ts = us ++ ts' ∧ ∀ t ∈ us, t ∈ new := by
  induction h with
  | stay ts k => exact ⟨[], rfl, List.forall_mem_nil _⟩
  | ended k k' => exact ⟨[], rfl, List.forall_mem_nil _⟩
  | look hk h ih =>
    obtain ⟨us, hus, hnoted⟩ := ih
    exact ⟨us, hus, fun t ht => List.mem_cons_of_mem _ (hnoted t ht)⟩
  | @take t ts new ts' k k' h ih =>
    obtain ⟨us, hus, hnoted⟩ := ih
    refine ⟨t :: us, congrArg (t :: ·) hus, ?_⟩
    rw [List.forall_mem_cons]
    exact ⟨List.mem_cons_self, fun u hu => List.mem_cons_of_mem _ (hnoted u hu)⟩

/-- The notes are each token as often as it was read. The copies noted before are counted in. -/
lemma counts (h : Rereads ts k new ts' k') (hk : k ≤ 4) :
    ∃ counts : List Nat, counts.length ≤ ts.length ∧ (ts' = [] → counts.length = ts.length) ∧
      (∀ n ∈ counts, 1 ≤ n ∧ n ≤ 5) ∧
      (ts.take 1).flatMap (List.replicate k) ++ new = repeated ts counts := by
  induction h with
  | stay ts k =>
    cases ts with
    | nil => exact ⟨[], by simp [repeated]⟩
    | cons t ts =>
      cases k with
      | zero => exact ⟨[], by simp [repeated]⟩
      | succ k => exact ⟨[k + 1], by simp [repeated]; omega⟩
  | ended k k' => exact ⟨[], by simp [repeated]⟩
  | @look t ts new ts' k k' hlt h ih =>
    obtain ⟨counts, hlength, hall, hbounds, heq⟩ := ih hlt
    refine ⟨counts, hlength, hall, hbounds, ?_⟩
    rw [← heq]
    simp [List.replicate_succ']
  | @take t ts new ts' k k' h ih =>
    obtain ⟨counts, hlength, hall, hbounds, heq⟩ := ih (Nat.zero_le _)
    refine ⟨(k + 1) :: counts, ?_, ?_, ?_, ?_⟩
    · simpa using hlength
    · simpa using hall
    · rw [List.forall_mem_cons]
      exact ⟨⟨by omega, by omega⟩, hbounds⟩
    · have hrest : new = repeated ts counts := by
        rw [← heq]
        cases ts <;> simp
      rw [hrest]
      simp [repeated, List.replicate_succ']

end Rereads

/-! ### What parsers note -/

namespace Parser

/-- From `s`, with `k` notes of the first token to come, a parser has only noted tokens on its way
to the result, and if it succeeds it leaves at most `b` notes of the token then to come. -/
def NotedBy {α : Type} (s : ParseState) (k b : Nat) :
    EStateM.Result ReadFault ParseState α → Prop
  | .ok _ s' => ∃ new k', s'.log.toList = s.log.toList ++ new.map .token ∧
      Rereads s.cursor.ahead k new s'.cursor.ahead k' ∧ k' ≤ b
  | .error _ s' => ∃ new ts' k', s'.log.toList = s.log.toList ++ new.map .token ∧
      Rereads s.cursor.ahead k new ts' k'

/-- A parser that starts with at most `a` notes of the token to come and leaves at most `b`. -/
def Notes {α : Type} (a : Nat) (p : Parser α) (b : Nat) : Prop :=
  ∀ s k, k ≤ a → NotedBy s k b (p s)

section

variable {α β : Type} {p : Parser α} {q : α → Parser β} {a b c : Nat}

lemma NotedBy.weaken {s : ParseState} {k : Nat} {r : EStateM.Result ReadFault ParseState α}
    (h : NotedBy s k b r) (hbc : b ≤ c) : NotedBy s k c r := by
  cases r with
  | ok x s' =>
    obtain ⟨new, k', hlog, hreads, hk'⟩ := h
    exact ⟨new, k', hlog, hreads, hk'.trans hbc⟩
  | error fault s' => exact h

lemma NotedBy.trans {s s' : ParseState} {k k' : Nat} {new : List Token}
    {r : EStateM.Result ReadFault ParseState α}
    (hlog : s'.log.toList = s.log.toList ++ new.map .token)
    (hreads : Rereads s.cursor.ahead k new s'.cursor.ahead k') (h : NotedBy s' k' b r) :
    NotedBy s k b r := by
  cases r with
  | ok x s'' =>
    obtain ⟨new', k'', hlog', hreads', hk''⟩ := h
    refine ⟨new ++ new', k'', ?_, hreads.trans hreads', hk''⟩
    rw [hlog', hlog, List.map_append, List.append_assoc]
  | error fault s'' =>
    obtain ⟨new', ts', k'', hlog', hreads'⟩ := h
    refine ⟨new ++ new', ts', k'', ?_, hreads.trans hreads'⟩
    rw [hlog', hlog, List.map_append, List.append_assoc]

lemma Notes.weaken (h : Notes a p b) {a' : Nat} (ha : a' ≤ a) (hbc : b ≤ c) : Notes a' p c :=
  fun s k hk => (h s k (hk.trans ha)).weaken hbc

lemma Notes.bind (hp : Notes a p b) (hq : ∀ x, Notes b (q x) c) : Notes a (p >>= q) c := by
  intro s k hk
  have hfirst := hp s k hk
  change NotedBy s k c (EStateM.bind p q s)
  unfold EStateM.bind
  cases hs : p s with
  | ok x s' =>
    rw [hs] at hfirst
    obtain ⟨new, k', hlog, hreads, hk'⟩ := hfirst
    exact .trans hlog hreads (hq x s' k' hk')
  | error fault s' =>
    rw [hs] at hfirst
    exact hfirst

lemma pure_notes (x : α) : Notes a (pure x) a :=
  fun s k hk => ⟨[], k, by simp, .stay _ _, hk⟩

lemma unexpected_notes (t : Token) (expected : List TokenKind) :
    Notes a (unexpected (α := α) t expected) b :=
  fun s k _ => ⟨[], s.cursor.ahead, k, by simp, .stay _ _⟩

lemma position_notes : Notes a position a :=
  fun s k hk => ⟨[], k, by simp, .stay _ _, hk⟩

end

lemma ahead_of_token {c : Cursor} {t : Token} (h : c.nextToken.1 = .ok t) (hkind : t.kind ≠ .eof) :
    c.ahead = t :: c.nextToken.2.ahead := by
  rw [Cursor.ahead, Cursor.tokens_of_token h hkind, List.filter_cons_of_pos (by simpa using hkind)]
  rfl

lemma ahead_of_eof {c : Cursor} {t : Token} (h : c.nextToken.1 = .ok t) (hkind : t.kind = .eof) :
    c.ahead = [] := by
  rw [Cursor.ahead, Cursor.tokens_of_eof h hkind]
  simp [hkind]

/-- The cursor after a look ahead. -/
def looked (c : Cursor) : Cursor := { c with current := c.place.last }

lemma ahead_looked (c : Cursor) : (looked c).ahead = c.ahead := by
  have hmeets : (looked c).Meets c := ⟨rfl, rfl⟩
  rw [Cursor.ahead, hmeets.tokens, Cursor.ahead]

lemma peek_eq (s : ParseState) :
    peek s =
      match s.cursor.nextToken.1 with
      | .error fault => .error (.lexical fault) ⟨looked s.cursor, s.log⟩
      | .ok t =>
        .ok t ⟨looked s.cursor, if t.kind = .eof then s.log else s.log.push (.token t)⟩ := by
  unfold peek scan
  rw [Cursor.peekToken_eq]
  cases s.cursor.nextToken.1 with
  | error fault => rfl
  | ok t => rfl

lemma next_notes : Notes 4 next 0 := by
  intro s k hk
  unfold next scan
  cases hread : s.cursor.nextToken with
  | mk result c =>
    cases result with
    | error fault => exact ⟨[], s.cursor.ahead, k, by simp, .stay _ _⟩
    | ok t =>
      have ht : s.cursor.nextToken.1 = .ok t := congrArg Prod.fst hread
      dsimp only
      by_cases hkind : t.kind = .eof
      · have hc : c.ahead = [] :=
          ahead_of_eof (congrArg Prod.fst (Cursor.nextToken_of_end hread hkind).2) hkind
        refine ⟨[], 0, by simp [hkind], ?_, Nat.le_refl 0⟩
        rw [ahead_of_eof ht hkind, hc]
        exact .ended _ _
      · refine ⟨[t], 0, by simp [hkind], ?_, Nat.le_refl 0⟩
        rw [ahead_of_token ht hkind, hread]
        exact .take (.stay _ _)

lemma peek_notes {a : Nat} (ha : a < 4) : Notes a peek (a + 1) := by
  intro s k hk
  rw [peek_eq]
  cases ht : s.cursor.nextToken.1 with
  | error fault => exact ⟨[], s.cursor.ahead, k, by simp, .stay _ _⟩
  | ok t =>
    by_cases hkind : t.kind = .eof
    · refine ⟨[], k, by simp [hkind], ?_, by omega⟩
      change Rereads _ _ _ (looked s.cursor).ahead _
      rw [ahead_looked]
      exact .stay _ _
    · refine ⟨[t], k + 1, by simp [hkind], ?_, by omega⟩
      change Rereads _ _ _ (looked s.cursor).ahead _
      rw [ahead_looked, ahead_of_token ht hkind]
      exact .look (by omega) (.stay _ _)

/-- Where the end is looked at, nothing is to come. -/
lemma ahead_of_peek {s s' : ParseState} {t : Token} (h : peek s = .ok t s')
    (hkind : t.kind = .eof) : s'.cursor.ahead = [] := by
  rw [peek_eq] at h
  cases ht : s.cursor.nextToken.1 with
  | error fault =>
    rw [ht] at h
    cases h
  | ok u =>
    rw [ht] at h
    cases h
    exact (ahead_looked s.cursor).trans (ahead_of_eof ht hkind)

lemma expect_notes (kind : TokenKind) : Notes 4 (expect kind) 0 := by
  refine next_notes.bind fun t => ?_
  split
  · exact pure_notes t
  · exact unexpected_notes t [kind]

lemma number_notes : Notes 4 number 0 :=
  (expect_notes .number).bind fun _ => pure_notes _

/-- One look at what follows an expression for every level of operators. -/
lemma power_notes (fuel : Nat) : Notes 4 (power fuel) 1 := by
  induction fuel with
  | zero => exact number_notes.weaken (Nat.le_refl 4) (by omega)
  | succ fuel ih =>
    refine number_notes.bind fun left => (peek_notes (by omega)).bind fun t => ?_
    split
    · have hnext : Notes 1 next 0 := next_notes.weaken (by omega) (Nat.le_refl 0)
      have hright : Notes 0 (power fuel) 1 := ih.weaken (by omega) (Nat.le_refl 1)
      exact hnext.bind fun op => hright.bind fun right => pure_notes _
    · exact pure_notes left

lemma chain_notes {isOp : TokenKind → Bool} {operand : Parser Expr} {b : Nat} (hb : b < 4)
    (hoperand : Notes 4 operand b) (fuel : Nat) (left : Expr) :
    Notes b (chain isOp operand fuel left) (b + 1) := by
  induction fuel generalizing left with
  | zero => exact (pure_notes left).weaken (Nat.le_refl b) (Nat.le_succ b)
  | succ fuel ih =>
    refine (peek_notes hb).bind fun t => ?_
    split
    · have hnext : Notes (b + 1) next 0 := next_notes.weaken hb (Nat.le_refl 0)
      have hright : Notes 0 operand b := hoperand.weaken (by omega) (Nat.le_refl b)
      exact hnext.bind fun op => hright.bind fun right => ih _
    · exact pure_notes left

lemma product_notes (fuel : Nat) : Notes 4 (product fuel) 2 :=
  (power_notes fuel).bind fun left => chain_notes (by omega) (power_notes fuel) fuel left

lemma sum_notes (fuel : Nat) : Notes 4 (sum fuel) 3 :=
  (product_notes fuel).bind fun left => chain_notes (by omega) (product_notes fuel) fuel left

lemma statement_notes (fuel : Nat) (t : Token) : Notes 4 (statement fuel t) 3 := by
  have hexpect : ∀ kind, Notes 0 (expect kind) 0 := fun kind =>
    (expect_notes kind).weaken (by omega) (Nat.le_refl 0)
  have hsum : Notes 0 (sum fuel) 3 := (sum_notes fuel).weaken (by omega) (Nat.le_refl 3)
  unfold statement
  split
  · refine Notes.weaken (b := 0) ?_ (Nat.le_refl 4) (by omega)
    exact (expect_notes .hi).bind fun hi => (hexpect .string).bind fun name => pure_notes _
  · exact (sum_notes fuel).bind fun value => pure_notes _
  · exact (expect_notes .print).bind fun word => hsum.bind fun value =>
      position_notes.bind fun stop => pure_notes _
  · exact unexpected_notes t _

end Parser

/-! ### The statements that are completed -/

/-- What is noted from where `ts` are to come, with `k` notes of their first, to where `ts'` are:
each completed statement is told once its tokens have been taken. The statements are given with
their tokens. -/
inductive Narrates :
    List Token → Nat → List (Stmt × List Token) → List LogEntry → List Token → Prop
  | last {ts new ts' : List Token} {k k' : Nat} (h : Rereads ts k new ts' k') :
      Narrates ts k [] (new.map .token) ts'
  | cons {us ts new ts' : List Token} {k k' : Nat} {s : Stmt} {more : List (Stmt × List Token)}
      {log : List LogEntry} (hs : s.ReadFrom us) (h : Rereads (us ++ ts) k new ts k')
      (hmore : Narrates ts k' more log ts') :
      Narrates (us ++ ts) k ((s, us) :: more)
        (new.map .token ++ .statement s.kind s.span :: log) ts'

namespace Narrates

variable {ts ts' : List Token} {k : Nat} {completed : List (Stmt × List Token)}
  {log : List LogEntry}

lemma filterMap_token? (new : List Token) :
    (new.map LogEntry.token).filterMap LogEntry.token? = new := by
  rw [List.filterMap_map]
  exact List.filterMap_some

lemma filterMap_statement? (new : List Token) :
    (new.map LogEntry.token).filterMap LogEntry.statement? = [] := by
  rw [List.filterMap_map, List.filterMap_eq_nil_iff]
  exact fun t ht => rfl

lemma rereads (h : Narrates ts k completed log ts') :
    ∃ k', Rereads ts k (log.filterMap LogEntry.token?) ts' k' := by
  induction h with
  | @last ts new ts' k k' h =>
    rw [filterMap_token?]
    exact ⟨k', h⟩
  | cons hs h hmore ih =>
    obtain ⟨k', hrest⟩ := ih
    rw [List.filterMap_append, filterMap_token?]
    exact ⟨k', h.trans hrest⟩

lemma statements (h : Narrates ts k completed log ts') :
    log.filterMap LogEntry.statement? = completed.map fun x => (x.1.kind, x.1.span) := by
  induction h with
  | last h => exact filterMap_statement? _
  | cons hs h hmore ih =>
    rw [List.filterMap_append, filterMap_statement?, List.map_cons, ← ih]
    rfl

lemma readFrom (h : Narrates ts k completed log ts') : ∀ x ∈ completed, x.1.ReadFrom x.2 := by
  induction h with
  | last h => exact List.forall_mem_nil _
  | cons hs h hmore ih =>
    rw [List.forall_mem_cons]
    exact ⟨hs, ih⟩

lemma taken (h : Narrates ts k completed log ts') : completed.flatMap Prod.snd <+: ts := by
  induction h with
  | last h => exact List.nil_prefix
  | cons hs h hmore ih => exact List.prefix_append_right_inj _ |>.mpr ih

lemma notMem_tokens (kind : NodeKind) (span : Span) (new : List Token) :
    LogEntry.statement kind span ∉ new.map .token := by
  intro hmem
  obtain ⟨t, -, ht⟩ := List.mem_map.mp hmem
  cases ht

/-- Before the entry of a statement there is a note of each of its tokens. -/
lemma after_tokens {kind : NodeKind} {span : Span} {before after : List LogEntry}
    (h : Narrates ts k completed (before ++ .statement kind span :: after) ts') :
    ∃ x, completed[(before.filterMap LogEntry.statement?).length]? = some x ∧
      x.1.kind = kind ∧ x.1.span = span ∧ ∀ t ∈ x.2, .token t ∈ before := by
  generalize hlog : before ++ .statement kind span :: after = log at h
  induction h generalizing before with
  | @last ts new ts' k k' h =>
    refine (notMem_tokens kind span new ?_).elim
    rw [← hlog]
    exact List.mem_append_right _ List.mem_cons_self
  | @cons us ts new ts' k k' s more log hs h hmore ih =>
    -- the notes of tokens before the first statement hold no other entry
    have hsplit : ∃ later, before = new.map .token ++ later ∧
        .statement s.kind s.span :: log = later ++ .statement kind span :: after := by
      obtain ⟨as, hnew, hrest⟩ | hlater := List.append_eq_append_iff.mp hlog
      · cases as with
        | nil => exact ⟨[], by rw [hnew, List.append_nil, List.append_nil], hrest.symm⟩
        | cons entry as =>
          obtain ⟨rfl, -⟩ := List.cons.inj hrest
          refine (notMem_tokens kind span new ?_).elim
          rw [hnew]
          exact List.mem_append_right _ List.mem_cons_self
      · exact hlater
    obtain ⟨later, rfl, hlater⟩ := hsplit
    rw [List.filterMap_append, filterMap_statement?, List.nil_append]
    cases later with
    | nil =>
      cases hlater
      obtain ⟨vs, hvs, hnoted⟩ := h.noted
      obtain rfl : us = vs := List.append_cancel_right hvs
      refine ⟨(s, us), rfl, rfl, rfl, fun t ht => ?_⟩
      rw [List.append_nil]
      exact List.mem_map_of_mem (hnoted t ht)
    | cons entry later =>
      obtain ⟨rfl, hlog'⟩ := List.cons.inj hlater
      obtain ⟨x, hx, hkind, hspan, hnoted⟩ := ih hlog'.symm
      refine ⟨x, hx, hkind, hspan, fun t ht => ?_⟩
      exact List.mem_append_right _ (List.mem_cons_of_mem _ (hnoted t ht))

end Narrates

/-! ### The loop over statements -/

lemma Expr.ReadFrom.kind_ne_eof {e : Expr} {us : List Token} (h : e.ReadFrom us) :
    ∀ t ∈ us, t.kind ≠ .eof := by
  induction h with
  | number ht => simp [ht]
  | operation hleft hop hright ihleft ihright =>
    rw [List.forall_mem_append, List.forall_mem_cons]
    refine ⟨ihleft, ?_, ihright⟩
    intro heof
    rw [heof] at hop
    cases hop

lemma Stmt.ReadFrom.kind_ne_eof {s : Stmt} {us : List Token} (h : s.ReadFrom us) :
    ∀ t ∈ us, t.kind ≠ .eof := by
  cases h with
  | greet hword hname => simp [hword, hname]
  | print hword hvalue =>
    rw [List.forall_mem_cons]
    exact ⟨by simp [hword], hvalue.kind_ne_eof⟩
  | evaluate hvalue => exact hvalue.kind_ne_eof

namespace Parser

/-- A statement is read from the tokens that it takes. -/
lemma statement_takes {fuel : Nat} {t : Token} {st : Stmt} {s s₁ s₂ : ParseState}
    (hfuel : s.cursor.place.rest.length < fuel) (hpeek : peek s = .ok t s₁)
    (hread : statement fuel t s₁ = .ok st s₂) :
    ∃ us, s.cursor.ahead = us ++ s₂.cursor.ahead ∧ st.ReadFrom us := by
  have hstands : Stands s.cursor.file s.cursor.tokens.1.2 s.cursor.tokens.1.1 s := ⟨rfl, rfl⟩
  have hlooked := peek_follows hstands
  rw [hpeek] at hlooked
  obtain ⟨r, -, rfl, hr, h₁, hplace⟩ := hlooked
  have hfollows := statement_follows h₁ hr (by rw [hplace]; exact hfuel)
  rw [hread] at hfollows
  obtain ⟨u, hu, rfl, h₂⟩ := hfollows
  obtain ⟨us, hus, hfrom⟩ := statement_traced hu
  refine ⟨us, ?_, hfrom⟩
  have hown : us.filter (·.kind ≠ .eof) = us :=
    List.filter_eq_self.mpr fun t ht => by simpa using hfrom.kind_ne_eof t ht
  have hrest : u.rest = s₂.cursor.tokens.1.1 := congrArg Prod.fst h₂.ahead.symm
  rw [Cursor.ahead, hus, List.filter_append, hown, hrest, Cursor.ahead]

lemma turn_statementBody (fuel : Nat) (s : ParseState) :
    turn (statementBody fuel) s = match peek s with
      | .error fault s₁ => .inr (.error fault s₁)
      | .ok t s₁ =>
        if t.kind = .eof then .inr (.ok () s₁)
        else match statement fuel t s₁ with
          | .error fault s₂ => .inr (.error fault s₂)
          | .ok st s₂ =>
            .inl (st, { s₂ with log := s₂.log.push (.statement st.kind st.span) }) := by
  simp only [turn, statementBody, bind, EStateM.bind]
  cases peek s with
  | error fault s₁ => rfl
  | ok t s₁ =>
    dsimp only
    by_cases hkind : t.kind = .eof
    · rw [if_pos hkind, if_pos hkind]
      rfl
    · rw [if_neg hkind, if_neg hkind]
      simp only [EStateM.bind]
      cases statement fuel t s₁ with
      | error fault s₂ => rfl
      | ok st s₂ => rfl

/-- A turn that completes a statement takes its tokens and then tells of it. -/
lemma statementBody_tells {fuel : Nat} {st : Stmt} {s s' : ParseState} {k : Nat} (hk : k ≤ 3)
    (hfuel : s.cursor.place.rest.length < fuel)
    (h : turn (statementBody fuel) s = .inl (st, s')) :
    ∃ us new k', st.ReadFrom us ∧ s.cursor.ahead = us ++ s'.cursor.ahead ∧
      Rereads s.cursor.ahead k new s'.cursor.ahead k' ∧ k' ≤ 3 ∧
      s'.log.toList = s.log.toList ++ (new.map .token ++ [.statement st.kind st.span]) := by
  have hpeek := peek_notes (show 3 < 4 by omega) s k hk
  rw [turn_statementBody] at h
  cases hlook : peek s with
  | error fault s₁ =>
    rw [hlook] at h
    cases h
  | ok t s₁ =>
    rw [hlook] at h hpeek
    obtain ⟨looked, k₁, hlog₁, hlooked, hk₁⟩ := hpeek
    have hstatement := statement_notes fuel t s₁ k₁ hk₁
    dsimp only at h
    split at h
    · cases h
    · cases hread : statement fuel t s₁ with
      | error fault s₂ =>
        rw [hread] at h
        cases h
      | ok st₂ s₂ =>
        obtain ⟨us, hahead, hfrom⟩ := statement_takes hfuel hlook hread
        rw [hread] at h hstatement
        cases h
        obtain ⟨new, k₂, hlog₂, hreads, hk₂⟩ := hstatement
        refine ⟨us, looked ++ new, k₂, hfrom, hahead, hlooked.trans hreads, hk₂, ?_⟩
        rw [Array.toList_push, hlog₂, hlog₁]
        simp

/-- The turn that ends the loop only looks, and it looks at the end if there is no fault. -/
lemma statementBody_stops {fuel : Nat} {s : ParseState} {k : Nat} (hk : k ≤ 3)
    {r : EStateM.Result ReadFault ParseState Unit} (h : turn (statementBody fuel) s = .inr r) :
    NotedBy s k 4 r ∧ ∀ s', r = .ok () s' → s'.cursor.ahead = [] := by
  have hpeek := peek_notes (show 3 < 4 by omega) s k hk
  rw [turn_statementBody] at h
  cases hlook : peek s with
  | error fault s₁ =>
    rw [hlook] at h hpeek
    cases h
    exact ⟨hpeek, fun s' h => by cases h⟩
  | ok t s₁ =>
    rw [hlook] at h hpeek
    dsimp only at h
    split at h
    · next hkind =>
      cases h
      refine ⟨hpeek, ?_⟩
      rintro _ ⟨rfl⟩
      exact ahead_of_peek hlook hkind
    · obtain ⟨looked, k₁, hlog₁, hlooked, hk₁⟩ := hpeek
      have hstatement := statement_notes fuel t s₁ k₁ hk₁
      cases hread : statement fuel t s₁ with
      | ok st s₂ =>
        rw [hread] at h
        cases h
      | error fault s₂ =>
        rw [hread] at h hstatement
        cases h
        exact ⟨.trans hlog₁ hlooked hstatement, fun s' h => by cases h⟩

/-- The state that a result was reached in. -/
def final {α : Type} : EStateM.Result ReadFault ParseState α → ParseState
  | .ok _ s => s
  | .error _ s => s

lemma collected_snd (start : Position) (items : List (Stmt × ParseState))
    (r : EStateM.Result ReadFault ParseState Unit) : (collected start items r).2 = final r := by
  cases r with
  | ok u s => rfl
  | error fault s => rfl

lemma loop_narrates {fuel : Nat} {s : ParseState} {items : List (Stmt × ParseState)}
    {r : EStateM.Result ReadFault ParseState Unit} {k : Nat}
    (h : Loops (turn (statementBody fuel)) s items r) (hk : k ≤ 3)
    (hfuel : s.cursor.place.rest.length < fuel) :
    ∃ completed log ts', (final r).log.toList = s.log.toList ++ log ∧
      completed.map Prod.fst = items.map Prod.fst ∧
      Narrates s.cursor.ahead k completed log ts' ∧ ∀ s', r = .ok () s' → ts' = [] := by
  induction h generalizing k with
  | @stop s r h =>
    obtain ⟨hnoted, hended⟩ := statementBody_stops hk h
    cases r with
    | ok u s' =>
      obtain ⟨new, k', hlog, hreads, -⟩ := hnoted
      refine ⟨[], _, s'.cursor.ahead, hlog, rfl, .last hreads, ?_⟩
      rintro _ ⟨rfl⟩
      exact hended s' rfl
    | error fault s' =>
      obtain ⟨new, ts', k', hlog, hreads⟩ := hnoted
      exact ⟨[], _, ts', hlog, rfl, .last hreads, fun s' h => by cases h⟩
  | @again s s' st items r h hrest ih =>
    obtain ⟨us, new, k', hfrom, hahead, hreads, hk', hlog⟩ := statementBody_tells hk hfuel h
    have hlt := statementBody_shortens fuel s st s' h
    obtain ⟨completed, log, ts', hlog', hitems, hnarrates, hended⟩ := ih hk' (by omega)
    rw [hahead] at hreads ⊢
    refine ⟨(st, us) :: completed, _, ts', ?_, ?_, .cons hfrom hreads hnarrates, hended⟩
    · rw [hlog', hlog]
      simp
    · rw [List.map_cons, List.map_cons, hitems]

end Parser

/-- What the parsing of a text notes, with the loop over its statements. -/
lemma Cursor.parse_narrates (c : Cursor) : ∃ completed ts' items r,
    Loops (Parser.turn (Parser.statementBody (c.place.rest.length + 1))) ⟨c, #[]⟩ items r ∧
      c.parse = Parser.collected c.pos items r ∧ completed.map Prod.fst = items.map Prod.fst ∧
      Narrates c.ahead 0 completed c.parse.2.log.toList ts' ∧
      ∀ p, c.parse.1 = .ok p → ts' = [] ∧ completed.map Prod.fst = p.body := by
  obtain ⟨items, r, hloop, -, hparse⟩ := c.parse_loop
  obtain ⟨completed, log, ts', hlog, hitems, hnarrates, hended⟩ :=
    Parser.loop_narrates hloop (Nat.zero_le 3) (Nat.lt_succ_self _)
  refine ⟨completed, ts', items, r, hloop, hparse, hitems, ?_, ?_⟩
  · rw [hparse, Parser.collected_snd, hlog]
    exact hnarrates
  · intro p hp
    rw [hparse] at hp
    cases r with
    | ok u s' =>
      cases hp
      exact ⟨hended s' rfl, hitems⟩
    | error fault s' => cases hp

lemma Cursor.nodup_ahead (text file : String) : (Cursor.ofText text file).ahead.Nodup := by
  obtain ⟨pieces, rest, last, hdivision, hts, -⟩ :=
    Cursor.tokens_divide (c := .ofText text file) (k := 0) rfl rfl
  rw [Cursor.ahead, hts]
  refine (located_ordered.sublist List.filter_sublist).imp_of_mem ?_
  rintro t u ht - hle rfl
  obtain ⟨hmem, hkind⟩ := List.mem_filter.mp ht
  have hproper := located_proper (k := 0) hdivision t hmem (by simpa using hkind)
  omega

/-- The log notes the tokens in their order up to some token, each of them one to five times. No
two tokens are the same. -/
structure NotesInOrder (ts : List Token) (counts : List Nat) (log : List LogEntry) : Prop where
  distinct : ts.Nodup
  bounds : ∀ n ∈ counts, 1 ≤ n ∧ n ≤ 5
  length_le : counts.length ≤ ts.length
  tokens : log.filterMap LogEntry.token? = repeated ts counts

/-- The log has one entry for each of the statements, in their order, with the kind and the span
of the statement and after notes of all the tokens that it was read from. -/
structure TellsOf (ts : List Token) (completed : List (Stmt × List Token))
    (log : List LogEntry) : Prop where
  readFrom : ∀ x ∈ completed, x.1.ReadFrom x.2
  taken : completed.flatMap Prod.snd <+: ts
  entries : log.filterMap LogEntry.statement? = completed.map fun x => (x.1.kind, x.1.span)
  after_tokens : ∀ before kind span after, log = before ++ .statement kind span :: after →
    ∃ x, completed[(before.filterMap LogEntry.statement?).length]? = some x ∧
      x.1.kind = kind ∧ x.1.span = span ∧ ∀ t ∈ x.2, .token t ∈ before

section

variable {ts ts' : List Token} {completed : List (Stmt × List Token)} {log : List LogEntry}

lemma Narrates.notesInOrder (h : Narrates ts 0 completed log ts') (hts : ts.Nodup) :
    ∃ counts, NotesInOrder ts counts log ∧ (ts' = [] → counts.length = ts.length) := by
  obtain ⟨k', hreads⟩ := h.rereads
  obtain ⟨counts, hlength, hall, hbounds, hrepeated⟩ := hreads.counts (Nat.zero_le 4)
  have hnone : (ts.take 1).flatMap (List.replicate 0) = [] := by simp
  rw [hnone, List.nil_append] at hrepeated
  exact ⟨counts, ⟨hts, hbounds, hlength, hrepeated⟩, hall⟩

lemma Narrates.tellsOf {k : Nat} (h : Narrates ts k completed log ts') :
    TellsOf ts completed log := by
  refine ⟨h.readFrom, h.taken, h.statements, ?_⟩
  rintro before kind span after rfl
  exact h.after_tokens

end

/-- Parsing a text notes the tokens that reading them all would note, in the same order, each one
to five times, and tells of each statement that it completes when the statement's tokens have been
noted. If the text parses, these are all of its tokens and all statements of the program. -/
theorem parse_log_rereads (text file : String) :
    let source := Cursor.ofText text file
    let ts := source.ahead
    let log := source.parse.2.log.toList
    ∃ counts completed, NotesInOrder ts counts log ∧ TellsOf ts completed log ∧
      (∃ items r,
        Loops (Parser.turn (Parser.statementBody (source.place.rest.length + 1)))
          ⟨source, #[]⟩ items r ∧
        source.parse = Parser.collected source.pos items r ∧
        completed.map Prod.fst = items.map Prod.fst) ∧
      ∀ p, source.parse.1 = .ok p →
        counts.length = ts.length ∧ completed.map Prod.fst = p.body := by
  have hdistinct := Cursor.nodup_ahead text file
  -- what the parser notes holds from every cursor
  generalize Cursor.ofText text file = source at hdistinct
  intro source ts log
  obtain ⟨completed, ts', items, r, hloop, hparse, hitems, hnarrates, hended⟩ :=
    source.parse_narrates
  obtain ⟨counts, hnotes, hall⟩ := hnarrates.notesInOrder hdistinct
  refine ⟨counts, completed, hnotes, hnarrates.tellsOf, ⟨items, r, hloop, hparse, hitems⟩, ?_⟩
  intro p hp
  obtain ⟨hnil, hbody⟩ := hended p hp
  exact ⟨hall hnil, hbody⟩

-- Every level of an expression and the loop look at the second number, and then it is taken.
example : (((Cursor.ofText "1 2" "").parse.2.log.toList.filterMap LogEntry.token?).map
    Token.value) = ["1", "1", "2", "2", "2", "2", "2"] := by
  decide +kernel

end HiToolchain
