import HiToolchain.Proofs.Scanning
import HiToolchain.Proofs.TokenWalk

/-!
# The parser reads what a walk over the tokens reads

The parser looks at a token by reading it and going back, some tokens several times. Each look
leaves the tokens to come as they are, so every parsing function follows its counterpart on the
token list: from a cursor with the tokens `ts` to come it has the same fault or the same value,
and its cursor then has the tokens to come that the walk leaves over. The fuel of the parser is no
limit, because a token takes a character and there is more fuel than characters.
-/

namespace HiToolchain

open TokenWalk

/-- A parser's result and a walk's outcome: one fault, or two values that `agree` in the state
that the parser has reached. -/
def Follows {α ρ : Type} (agree : ρ → α → ParseState → Prop)
    (outcome : Except (Option ReadFault) ρ) : EStateM.Result ReadFault ParseState α → Prop
  | .ok a s => ∃ r, outcome = .ok r ∧ agree r a s
  | .error e _ => outcome = .error (some e)

lemma Follows.bind {α β ρ σ : Type} {agree : ρ → α → ParseState → Prop}
    {agree' : σ → β → ParseState → Prop} {outcome : Except (Option ReadFault) ρ}
    {next : ρ → Except (Option ReadFault) σ} {p : Parser α} {q : α → Parser β} {s : ParseState}
    (hp : Follows agree outcome (p s))
    (hq : ∀ r a s', agree r a s' → Follows agree' (next r) (q a s')) :
    Follows agree' (outcome >>= next) ((p >>= q) s) := by
  change Follows agree' (outcome >>= next) (EStateM.bind p q s)
  unfold EStateM.bind
  cases hs : p s with
  | ok a s' =>
    rw [hs] at hp
    obtain ⟨r, rfl, hagree⟩ := hp
    exact hq r a s' hagree
  | error e s' =>
    rw [hs] at hp
    obtain rfl := hp
    rfl

/-- A state of the parser in the named file with the tokens `ts` to come. -/
structure Stands (file : String) (fault : Option LexFault) (ts : List Token)
    (s : ParseState) : Prop where
  file_eq : s.cursor.file = file
  ahead : s.cursor.tokens.1 = (ts, fault)

/-- A state that the parser has reached at `stop` with fewer than `bound` characters left. -/
structure Arrived (file : String) (fault : Option LexFault) (bound : Nat) (ts : List Token)
    (stop : Position) (s : ParseState) : Prop extends Stands file fault ts s where
  pos_eq : s.cursor.pos = stop
  length_lt : s.cursor.place.rest.length < bound

/-- A reading whose value the parser has too, in a state where it has arrived at the tokens left
over. The value tells by `stop` the position reached. -/
def Reached {α : Type} (file : String) (fault : Option LexFault) (bound : Nat)
    (stop : α → Position) {ts : List Token} (r : Reading α ts) (a : α) (s : ParseState) : Prop :=
  r.value = a ∧ Arrived file fault bound r.rest (stop a) s

section

variable {file : String} {fault : Option LexFault}

lemma Arrived.weaken {bound bound' : Nat} {ts : List Token} {stop : Position} {s : ParseState}
    (h : Arrived file fault bound ts stop s) (hle : bound ≤ bound') :
    Arrived file fault bound' ts stop s :=
  ⟨h.toStands, h.pos_eq, Nat.lt_of_lt_of_le h.length_lt hle⟩

/-- Going back to the same place is arriving there again. -/
lemma Arrived.again {bound : Nat} {ts : List Token} {stop : Position} {s s' : ParseState}
    (h : Arrived file fault bound ts stop s) (hs' : Stands file fault ts s')
    (hplace : s'.cursor.place = s.cursor.place) : Arrived file fault bound ts stop s' := by
  refine ⟨hs', ?_, ?_⟩
  · rw [Cursor.pos, hplace]
    exact h.pos_eq
  · rw [hplace]
    exact h.length_lt

/-! ### Single tokens -/

lemma scan_of_error {read : Cursor → Cursor.Scanned Token} {s : ParseState} {f : LexFault}
    (h : (read s.cursor).1 = .error f) :
    Parser.scan read s = .error (.lexical f) { s with cursor := (read s.cursor).2 } := by
  have hpair : read s.cursor = (_, (read s.cursor).2) := Prod.ext h rfl
  unfold Parser.scan
  rw [hpair]

lemma scan_of_ok {read : Cursor → Cursor.Scanned Token} {s : ParseState} {t : Token}
    (h : (read s.cursor).1 = .ok t) :
    ∃ log, Parser.scan read s = .ok t ⟨(read s.cursor).2, log⟩ := by
  have hpair : read s.cursor = (_, (read s.cursor).2) := Prod.ext h rfl
  unfold Parser.scan
  rw [hpair]
  exact ⟨_, rfl⟩

/-- A look ahead fails where the walk misses a token, and shows the first token to come
otherwise, with the cursor at the place where it was. -/
lemma peek_follows {ts : List Token} {s : ParseState} (hs : Stands file fault ts s) :
    Follows (fun r t s' => r.value = t ∧ first fault ts = .ok r ∧ Stands file fault ts s' ∧
      s'.cursor.place = s.cursor.place) (first fault ts) (Parser.peek s) := by
  have hmeets : s.cursor.peekToken.2.Meets s.cursor := by
    rw [Cursor.peekToken_eq]
    exact ⟨rfl, rfl⟩
  have hresult : s.cursor.peekToken.1 = s.cursor.nextToken.1 := by rw [Cursor.peekToken_eq]
  unfold Parser.peek
  cases ts with
  | nil =>
    obtain ⟨f, rfl, hf⟩ := Cursor.nextToken_of_tokens_nil hs.ahead
    rw [scan_of_error (hresult.trans hf)]
    rfl
  | cons t ts =>
    obtain ⟨ht, -⟩ := Cursor.nextToken_of_tokens_cons hs.ahead
    obtain ⟨log, hscan⟩ := scan_of_ok (hresult.trans ht)
    rw [hscan]
    exact ⟨_, rfl, rfl, rfl, ⟨hmeets.1.trans hs.file_eq, hmeets.tokens.trans hs.ahead⟩, hmeets.2⟩

lemma next_of_cons {t : Token} {ts : List Token} {s : ParseState}
    (hs : Stands file fault (t :: ts) s) (hkind : t.kind ≠ .eof) :
    ∃ s', Parser.next s = .ok t s' ∧
      Arrived file fault s.cursor.place.rest.length ts t.span.stop s' := by
  obtain ⟨ht, hahead⟩ := Cursor.nextToken_of_tokens_cons hs.ahead
  obtain ⟨log, hscan⟩ := scan_of_ok ht
  have hreads : s.cursor.Reads t s.cursor.nextToken.2 := Cursor.nextToken_reads (Prod.ext ht rfl)
  rw [if_neg hkind] at hahead
  exact ⟨_, hscan, ⟨hreads.leads.file.trans hs.file_eq, hahead⟩, hreads.stop.symm,
    hreads.shorter hkind⟩

lemma Follows.next {α ρ : Type} {agree : ρ → α → ParseState → Prop} {ts : List Token}
    {outcome : Except (Option ReadFault) ρ} {q : Token → Parser α} {s : ParseState}
    {r : Reading Token ts} (hs : Stands file fault ts s) (hr : first fault ts = .ok r)
    (hkind : r.value.kind ≠ .eof)
    (hq : ∀ s', Arrived file fault s.cursor.place.rest.length r.rest r.value.span.stop s' →
      Follows agree outcome (q r.value s')) :
    Follows agree outcome ((Parser.next >>= q) s) := by
  change Follows agree outcome (EStateM.bind Parser.next q s)
  unfold EStateM.bind
  cases ts with
  | nil => cases hr
  | cons t ts =>
    cases hr
    obtain ⟨s', hnext, harrived⟩ := next_of_cons hs hkind
    rw [hnext]
    exact hq s' harrived

lemma refuse_follows {α ρ : Type} {agree : ρ → α → ParseState → Prop} (t : Token)
    (expected : List TokenKind) {s : ParseState} (hfile : s.cursor.file = file) :
    Follows agree (refuse file t expected) (Parser.unexpected t expected s) := by
  change refuse file t expected = .error (some (.grammatical ⟨s.cursor.file, _, _, _⟩))
  rw [hfile]
  rfl

lemma expect_follows {kind : TokenKind} (hkind : kind ≠ .eof) {ts : List Token} {s : ParseState}
    (hs : Stands file fault ts s) :
    Follows (Reached file fault s.cursor.place.rest.length fun t => t.span.stop)
      (expect file fault kind ts) (Parser.expect kind s) := by
  change Follows _ _ (EStateM.bind Parser.next _ s)
  unfold EStateM.bind
  cases ts with
  | nil =>
    obtain ⟨f, rfl, hf⟩ := Cursor.nextToken_of_tokens_nil hs.ahead
    rw [Parser.next, scan_of_error hf]
    rfl
  | cons t ts =>
    change Follows _ (if t.kind = kind then (.ok ⟨t, ts, _⟩ : Outcome Token (t :: ts))
      else refuse file t [kind]) _
    by_cases ht : t.kind = kind
    · obtain ⟨s', hnext, harrived⟩ := next_of_cons hs (ht ▸ hkind)
      rw [hnext]
      dsimp only
      rw [if_pos ht, if_pos ht]
      exact ⟨_, rfl, rfl, harrived⟩
    · obtain ⟨hfirst, -⟩ := Cursor.nextToken_of_tokens_cons hs.ahead
      obtain ⟨log, hscan⟩ := scan_of_ok hfirst
      rw [Parser.next, hscan]
      dsimp only
      rw [if_neg ht, if_neg ht]
      exact refuse_follows t [kind] (s.cursor.nextToken_leads.file.trans hs.file_eq)

/-! ### Expressions -/

/-- A parser of expressions follows a walk from every state with less than `fuel` characters
left. -/
def ExprFollows (file : String) (fault : Option LexFault) (fuel : Nat) (p : Parser Expr)
    (walk : (ts : List Token) → Outcome Expr ts) : Prop :=
  ∀ ts s, Stands file fault ts s → s.cursor.place.rest.length < fuel →
    Follows (Reached file fault s.cursor.place.rest.length fun e => e.span.stop) (walk ts) (p s)

lemma number_follows {ts : List Token} {s : ParseState} (hs : Stands file fault ts s) :
    Follows (Reached file fault s.cursor.place.rest.length fun e => e.span.stop)
      (number file fault ts) (Parser.number s) := by
  refine (expect_follows (by decide) hs).bind ?_
  rintro t _ s' ⟨rfl, h⟩
  exact ⟨_, rfl, rfl, h⟩

lemma power_follows (fuel : Nat) :
    ExprFollows file fault fuel (Parser.power fuel) (power file fault) := by
  induction fuel with
  | zero =>
    intro ts s hs hfuel
    omega
  | succ fuel ih =>
    intro ts s hs hfuel
    rw [Parser.power, TokenWalk.power]
    refine (number_follows hs).bind ?_
    rintro left _ s₁ ⟨rfl, h₁⟩
    refine (peek_follows h₁.toStands).bind ?_
    rintro op _ s₂ ⟨rfl, hop, h₂, hplace⟩
    split
    · next hkind =>
      refine Follows.next h₂ hop (by rw [hkind]; decide) ?_
      intro s₃ h₃
      have hlt : s₃.cursor.place.rest.length < s.cursor.place.rest.length := by
        have hthird := h₃.length_lt
        rw [hplace] at hthird
        exact Nat.lt_trans hthird h₁.length_lt
      refine (ih _ _ h₃.toStands (by omega)).bind ?_
      rintro right _ s₄ ⟨rfl, h₄⟩
      exact ⟨_, rfl, rfl, h₄.weaken (by omega)⟩
    · exact ⟨left, rfl, rfl, h₁.again h₂ hplace⟩

lemma chain_follows {isOp : TokenKind → Bool} {operand : Parser Expr}
    {walk : (ts : List Token) → Outcome Expr ts} {enough : Nat} (hend : isOp .eof = false)
    (hoperand : ExprFollows file fault enough operand walk) (fuel : Nat) {bound : Nat}
    {ts : List Token} (left : Reading Expr ts) {s : ParseState}
    (hs : Arrived file fault bound left.rest left.value.span.stop s)
    (hfuel : s.cursor.place.rest.length < fuel) (henough : s.cursor.place.rest.length < enough) :
    Follows (Reached file fault bound fun e => e.span.stop) (chain fault isOp walk left)
      (Parser.chain isOp operand fuel left.value s) := by
  induction fuel generalizing left s with
  | zero => omega
  | succ fuel ih =>
    have hlength := hs.length_lt
    rw [Parser.chain, TokenWalk.chain]
    refine (peek_follows hs.toStands).bind ?_
    rintro op _ s₁ ⟨rfl, hop, h₁, hplace⟩
    split
    · next hkind =>
      have hne : op.value.kind ≠ .eof := by
        intro heof
        rw [heof, hend] at hkind
        cases hkind
      refine Follows.next h₁ hop hne ?_
      intro s₂ h₂
      have hsecond := h₂.length_lt
      rw [hplace] at hsecond
      refine (hoperand _ _ h₂.toStands (by omega)).bind ?_
      rintro right _ s₃ ⟨rfl, h₃⟩
      have hthird := h₃.length_lt
      exact ih ((left.andThen (op.andThen right)).map _) (h₃.weaken (by omega)) (by omega)
        (by omega)
    · exact ⟨left, rfl, rfl, hs.again h₁ hplace⟩

lemma product_follows (fuel : Nat) :
    ExprFollows file fault fuel (Parser.product fuel) (product file fault) := by
  intro ts s hs hfuel
  refine (power_follows fuel ts s hs hfuel).bind ?_
  rintro left _ s' ⟨rfl, h⟩
  have hlength := h.length_lt
  exact chain_follows rfl (power_follows fuel) fuel left h (by omega) (by omega)

lemma sum_follows (fuel : Nat) :
    ExprFollows file fault fuel (Parser.sum fuel) (sum file fault) := by
  intro ts s hs hfuel
  refine (product_follows fuel ts s hs hfuel).bind ?_
  rintro left _ s' ⟨rfl, h⟩
  have hlength := h.length_lt
  exact chain_follows rfl (product_follows fuel) fuel left h (by omega) (by omega)

/-! ### Statements -/

lemma greeting_follows {ts : List Token} {s : ParseState} (hs : Stands file fault ts s) :
    Follows (Reached file fault s.cursor.place.rest.length fun st => st.span.stop)
      (greeting file fault ts) (Parser.greeting s) := by
  refine (expect_follows (by decide) hs).bind ?_
  rintro hi _ s₁ ⟨rfl, h₁⟩
  refine (expect_follows (by decide) h₁.toStands).bind ?_
  rintro name _ s₂ ⟨rfl, h₂⟩
  exact ⟨_, rfl, rfl, h₂.weaken (Nat.le_of_lt h₁.length_lt)⟩

lemma printing_follows {fuel : Nat} {ts : List Token} {s : ParseState}
    (hs : Stands file fault ts s) (hfuel : s.cursor.place.rest.length < fuel) :
    Follows (Reached file fault s.cursor.place.rest.length fun st => st.span.stop)
      (printing file fault ts) (Parser.printing fuel s) := by
  refine (expect_follows (by decide) hs).bind ?_
  rintro word _ s₁ ⟨rfl, h₁⟩
  have hlength := h₁.length_lt
  refine (sum_follows fuel _ _ h₁.toStands (by omega)).bind ?_
  rintro value _ s₂ ⟨rfl, h₂⟩
  -- the parser ends a `print` at its cursor, the walk at the end of the expression
  have hposition : ∀ st, (do return .print ⟨word.value.span.start, ← Parser.position⟩ st
      : Parser Stmt) s₂ = .ok (.print ⟨word.value.span.start, s₂.cursor.pos⟩ st) s₂ :=
    fun _ => rfl
  rw [hposition, h₂.pos_eq]
  exact ⟨_, rfl, rfl, h₂.weaken (by omega)⟩

lemma evaluation_follows {fuel : Nat} {ts : List Token} {s : ParseState}
    (hs : Stands file fault ts s) (hfuel : s.cursor.place.rest.length < fuel) :
    Follows (Reached file fault s.cursor.place.rest.length fun st => st.span.stop)
      (evaluation file fault ts) (Parser.evaluation fuel s) := by
  refine (sum_follows fuel _ _ hs hfuel).bind ?_
  rintro value _ s' ⟨rfl, h⟩
  exact ⟨_, rfl, rfl, h⟩

lemma statement_follows {fuel : Nat} {ts : List Token} {s : ParseState} {r : Reading Token ts}
    (hs : Stands file fault ts s) (hr : first fault ts = .ok r)
    (hfuel : s.cursor.place.rest.length < fuel) :
    Follows (Reached file fault s.cursor.place.rest.length fun st => st.span.stop)
      (statement file fault ts) (Parser.statement fuel r.value s) := by
  unfold TokenWalk.statement Parser.statement
  rw [hr, ok_bind]
  cases r.value.kind with
  | hi => exact greeting_follows hs
  | number => exact evaluation_follows hs hfuel
  | print => exact printing_follows hs hfuel
  | _ => exact refuse_follows r.value _ hs.file_eq

/-- Statements to the end of the text; the parser then stands where the last one ended. -/
lemma statements_follow {enough : Nat} (fuel : Nat) {ts : List Token} {s : ParseState}
    (hs : Stands file fault ts s) (hfuel : s.cursor.place.rest.length < fuel)
    (henough : s.cursor.place.rest.length < enough) :
    Follows (fun body body' s' => body = body' ∧ s'.cursor.pos = lastStop s.cursor.pos body)
      (statements file fault ts) (Parser.statements enough fuel s) := by
  induction fuel generalizing ts s with
  | zero => omega
  | succ fuel ih =>
    rw [Parser.statements, TokenWalk.statements]
    refine (peek_follows hs).bind ?_
    rintro t _ s₁ ⟨rfl, ht, h₁, hplace⟩
    split
    · refine ⟨[], rfl, rfl, ?_⟩
      rw [Cursor.pos, hplace]
      rfl
    · refine (statement_follows h₁ ht (by rw [hplace]; exact henough)).bind ?_
      rintro st _ s₂ ⟨rfl, h₂⟩
      have hlength := h₂.length_lt
      rw [hplace] at hlength
      -- the note in the log leaves the cursor alone
      let noted : ParseState :=
        { s₂ with log := s₂.log.push (.statement st.value.kind st.value.span) }
      have hnoted : Stands file fault st.rest noted := ⟨h₂.file_eq, h₂.ahead⟩
      change Follows _ _ ((Parser.statements enough fuel >>= fun body =>
        (return st.value :: body : Parser (List Stmt))) noted)
      have hleft : noted.cursor.place.rest.length < s.cursor.place.rest.length := hlength
      refine (ih hnoted (by omega) (by omega)).bind ?_
      rintro body _ s₃ ⟨rfl, hpos⟩
      refine ⟨_, rfl, rfl, ?_⟩
      rw [hpos, lastStop_cons]
      exact congrArg (fun p => lastStop p body) h₂.pos_eq

end

lemma program_follows (c : Cursor) (hstart : c.pos = .start) :
    Follows (fun p p' _ => p = p') (program c.file c.tokens.1.2 c.tokens.1.1)
      (Parser.program ⟨c, #[]⟩) := by
  change Follows _ _ ((Parser.statements (c.place.rest.length + 1) (c.place.rest.length + 1) >>=
    fun body => (do return ⟨⟨c.pos, ← Parser.position⟩, body⟩ : Parser Program)) ⟨c, #[]⟩)
  have hstands : Stands c.file c.tokens.1.2 c.tokens.1.1 ⟨c, #[]⟩ := ⟨rfl, rfl⟩
  refine (statements_follow (c.place.rest.length + 1) hstands (Nat.lt_succ_self _)
    (Nat.lt_succ_self _)).bind ?_
  rintro body _ s ⟨rfl, hpos⟩
  refine ⟨_, rfl, ?_⟩
  rw [hpos, hstart]

lemma parse_eq_program (c : Cursor) (hstart : c.pos = .start) :
    program c.file c.tokens.1.2 c.tokens.1.1 = c.parse.1.mapError some := by
  have hfollows := program_follows c hstart
  unfold Cursor.parse
  cases hresult : Parser.program ⟨c, #[]⟩ with
  | ok p s =>
    rw [hresult] at hfollows
    obtain ⟨_, houtcome, rfl⟩ := hfollows
    exact houtcome
  | error e s =>
    rw [hresult] at hfollows
    exact hfollows

/-- A walk over the tokens of a cursor that succeeds has met the end, which a fault leaves out. -/
lemma fault_eq_none_of_program_ok {c : Cursor} {p : Program}
    (h : program c.file c.tokens.1.2 c.tokens.1.1 = .ok p) : c.tokens.1.2 = none := by
  obtain ⟨body, hbody, -⟩ := bind_eq_ok.mp h
  obtain ⟨t, ht, hkind⟩ := eof_mem_of_statements_ok hbody
  have hends : EndsProperly c.tokens.1.1 c.tokens.1.2 := Cursor.tokens_endsProperly rfl
  cases hfault : c.tokens.1.2 with
  | none => rfl
  | some f =>
    rw [hfault] at hends
    exact (hends t ht hkind).elim

/-- Parsing a text is walking once over its tokens. So a text that parses has all its tokens, and
a fault in the tokens shows as that fault unless an earlier token does not fit. -/
theorem parse_eq_token_walk (text file : String) :
    let source := Cursor.ofText text file
    let ts := source.tokens.1.1
    let fault := source.tokens.1.2
    program source.file fault ts = (Program.parse text file).mapError some ∧
      ((∃ p, Program.parse text file = .ok p) → fault = none) ∧
      ∀ f, fault = some f →
        Program.parse text file = .error (.lexical f) ∨
        ∃ g, Program.parse text file = .error (.grammatical g) ∧ ∃ t ∈ ts, g.span = t.span := by
  intro source ts fault
  have hwalk : program source.file fault ts = (Program.parse text file).mapError some :=
    parse_eq_program source rfl
  have hnone : (∃ p, Program.parse text file = .ok p) → fault = none := by
    rintro ⟨p, hp⟩
    rw [hp] at hwalk
    exact fault_eq_none_of_program_ok hwalk
  refine ⟨hwalk, hnone, ?_⟩
  intro f hf
  cases hparse : Program.parse text file with
  | ok p =>
    rw [hnone ⟨p, hparse⟩] at hf
    cases hf
  | error e =>
    have hexplained : Explained source.file fault ts (program source.file fault ts) :=
      program_explained
    rw [hwalk, hparse] at hexplained
    obtain hlexical | ⟨t, ht, expected, hgrammatical⟩ := hexplained _ rfl
    · rw [hf] at hlexical
      cases hlexical
      exact .inl rfl
    · cases hgrammatical
      exact .inr ⟨_, rfl, t, ht, rfl⟩

end HiToolchain
