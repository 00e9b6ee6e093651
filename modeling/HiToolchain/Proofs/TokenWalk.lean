import HiToolchain.Parse
import HiToolchain.Proofs.Sequencing
import HiToolchain.Proofs.Shape

/-!
# Reading programs from a token list

A second reader of programs, which has the tokens of a text as a list and walks over it once from
left to right. It looks at the first token of what is left and never turns back, so it needs
neither a cursor nor marks. Where the list has ended and one more token is needed, it raises the
fault that ended the list.
-/

namespace HiToolchain.TokenWalk

/-- A value read from the front of `ts`, which took at least one token, and the tokens after it. -/
structure Reading (α : Type) (ts : List Token) where
  value : α
  rest : List Token
  proper : ∃ t, t :: rest <:+ ts

/-- A fault, or nothing where a token is needed after a list that no fault has ended. -/
abbrev Outcome (α : Type) (ts : List Token) := Except (Option ReadFault) (Reading α ts)

lemma Reading.length_lt {α : Type} {ts : List Token} (r : Reading α ts) :
    r.rest.length < ts.length := by
  obtain ⟨t, ht⟩ := r.proper
  exact ht.length_le

lemma Reading.suffix {α : Type} {ts : List Token} (r : Reading α ts) : r.rest <:+ ts := by
  obtain ⟨t, ht⟩ := r.proper
  exact (List.suffix_cons t r.rest).trans ht

def Reading.andThen {α β : Type} {ts : List Token} (r : Reading α ts) (next : Reading β r.rest) :
    Reading β ts :=
  ⟨next.value, next.rest, next.proper.imp fun _ h => h.trans r.suffix⟩

def Reading.map {α β : Type} {ts : List Token} (f : α → β) (r : Reading α ts) : Reading β ts :=
  ⟨f r.value, r.rest, r.proper⟩

section

variable (file : String) (fault : Option LexFault)

def missing {α : Type} : Except (Option ReadFault) α :=
  .error (fault.map .lexical)

def refuse {α : Type} (t : Token) (expected : List TokenKind) : Except (Option ReadFault) α :=
  .error (some (.grammatical ⟨file, t.kind, expected, t.span⟩))

def first (ts : List Token) : Outcome Token ts :=
  match ts with
  | [] => missing fault
  | t :: rest => .ok ⟨t, rest, t, List.suffix_refl _⟩

def expect (kind : TokenKind) (ts : List Token) : Outcome Token ts := do
  let t ← first fault ts
  if t.value.kind = kind then return t else refuse file t.value [kind]

def number (ts : List Token) : Outcome Expr ts := do
  let t ← expect file fault .number ts
  return t.map fun t => .number t.span t.value

def power (ts : List Token) : Outcome Expr ts := do
  let left ← number file fault ts
  let op ← first fault left.rest
  if op.value.kind = .power then
    let right ← power op.rest
    return (left.andThen (op.andThen right)).map (Parser.operation op.value.kind left.value)
  else return left
termination_by ts.length
decreasing_by exact Nat.lt_trans op.length_lt left.length_lt

/-- Operations that follow `left` and are grouped to the left. -/
def chain (isOp : TokenKind → Bool) (operand : (ts : List Token) → Outcome Expr ts)
    {ts : List Token} (left : Reading Expr ts) : Outcome Expr ts := do
  let op ← first fault left.rest
  if isOp op.value.kind then
    let right ← operand op.rest
    chain isOp operand
      ((left.andThen (op.andThen right)).map (Parser.operation op.value.kind left.value))
  else return left
termination_by left.rest.length
decreasing_by exact Nat.lt_trans right.length_lt op.length_lt

def product (ts : List Token) : Outcome Expr ts := do
  let left ← power file fault ts
  chain fault TokenKind.isMultiplicative (power file fault) left

def sum (ts : List Token) : Outcome Expr ts := do
  let left ← product file fault ts
  chain fault TokenKind.isAdditive (product file fault) left

def greeting (ts : List Token) : Outcome Stmt ts := do
  let hi ← expect file fault .hi ts
  let name ← expect file fault .string hi.rest
  return (hi.andThen name).map fun name =>
    .greet ⟨hi.value.span.start, name.span.stop⟩ name.value

/-- A `print` ends where its expression ends. -/
def printing (ts : List Token) : Outcome Stmt ts := do
  let word ← expect file fault .print ts
  let value ← sum file fault word.rest
  return (word.andThen value).map fun e => .print ⟨word.value.span.start, e.span.stop⟩ e

def evaluation (ts : List Token) : Outcome Stmt ts := do
  let value ← sum file fault ts
  return value.map fun e => .evaluate e.span e

def statement (ts : List Token) : Outcome Stmt ts := do
  let t ← first fault ts
  match t.value.kind with
  | .hi => greeting file fault ts
  | .number => evaluation file fault ts
  | .print => printing file fault ts
  | _ => refuse file t.value [.hi, .number, .print]

def statements (ts : List Token) : Except (Option ReadFault) (List Stmt) := do
  let t ← first fault ts
  if t.value.kind = .eof then return []
  else
    let s ← statement file fault ts
    let body ← statements s.rest
    return s.value :: body
termination_by ts.length
decreasing_by exact s.length_lt

/-- The end of the last statement, or `start` if there is none. -/
def lastStop (start : Position) (body : List Stmt) : Position :=
  (body.getLast?.map fun s => s.span.stop).getD start

def program (ts : List Token) : Except (Option ReadFault) Program := do
  let body ← statements file fault ts
  return ⟨⟨.start, lastStop .start body⟩, body⟩

end

lemma lastStop_cons (start : Position) (s : Stmt) (body : List Stmt) :
    lastStop start (s :: body) = lastStop s.span.stop body := by
  unfold lastStop
  rw [List.getLast?_cons]
  cases body.getLast? <;> rfl

/-! ### Where faults come from -/

lemma first_eq {fault : Option LexFault} {ts : List Token} {r : Reading Token ts}
    (h : first fault ts = .ok r) : ts = r.value :: r.rest := by
  cases ts with
  | nil => cases h
  | cons t rest =>
    cases h
    rfl

lemma first_mem {fault : Option LexFault} {ts : List Token} {r : Reading Token ts}
    (h : first fault ts = .ok r) : r.value ∈ ts := by
  have hmem : r.value ∈ r.value :: r.rest := List.mem_cons_self
  rwa [← first_eq h] at hmem

/-- Every fault is the one that ended the tokens, or is about one of them. -/
def Explained {ρ : Type} (file : String) (fault : Option LexFault) (ts : List Token)
    (outcome : Except (Option ReadFault) ρ) : Prop :=
  ∀ e, outcome = .error e → e = fault.map .lexical ∨
    ∃ t ∈ ts, ∃ expected, e = some (.grammatical ⟨file, t.kind, expected, t.span⟩)

section

variable {file : String} {fault : Option LexFault} {ts : List Token}

lemma Explained.bind {ρ σ : Type} {outcome : Except (Option ReadFault) ρ}
    {next : ρ → Except (Option ReadFault) σ} (h : Explained file fault ts outcome)
    (hnext : ∀ r, outcome = .ok r → Explained file fault ts (next r)) :
    Explained file fault ts (outcome >>= next) := by
  intro e he
  cases outcome with
  | ok r => exact hnext r rfl e he
  | error f =>
    cases he
    exact h e rfl

lemma Explained.ok {ρ : Type} (r : ρ) :
    Explained file fault ts (.ok r : Except (Option ReadFault) ρ) :=
  fun _ he => nomatch he

/-- What explains a fault in the tokens left over by a reading explains it in all of them. -/
lemma Explained.of_rest {α ρ : Type} {outcome : Except (Option ReadFault) ρ} {r : Reading α ts}
    (h : Explained file fault r.rest outcome) : Explained file fault ts outcome := by
  intro e he
  obtain hlexical | ⟨t, ht, hexpected⟩ := h e he
  · exact .inl hlexical
  · exact .inr ⟨t, r.suffix.subset ht, hexpected⟩

lemma first_explained : Explained file fault ts (first fault ts) := by
  intro e he
  cases ts with
  | nil =>
    cases he
    exact .inl rfl
  | cons t rest => cases he

lemma refuse_explained {ρ : Type} {t : Token} (ht : t ∈ ts) (expected : List TokenKind) :
    Explained file fault ts (refuse file t expected : Except (Option ReadFault) ρ) := by
  intro e he
  cases he
  exact .inr ⟨t, ht, expected, rfl⟩

lemma expect_explained (kind : TokenKind) :
    Explained file fault ts (expect file fault kind ts) := by
  refine first_explained.bind fun r hr => ?_
  split
  · exact .ok r
  · exact refuse_explained (first_mem hr) _

lemma number_explained : Explained file fault ts (number file fault ts) :=
  (expect_explained _).bind fun _ _ => .ok _

lemma power_explained : Explained file fault ts (power file fault ts) := by
  induction ts using power.induct with
  | case1 ts ih =>
    rw [power]
    refine number_explained.bind fun left _ => ?_
    refine first_explained.of_rest.bind fun op _ => ?_
    split
    · exact (ih left op).of_rest.of_rest.bind fun _ _ => .ok _
    · exact .ok left

lemma chain_explained {isOp : TokenKind → Bool} {operand : (ts : List Token) → Outcome Expr ts}
    (hoperand : ∀ ts, Explained file fault ts (operand ts)) (left : Reading Expr ts) :
    Explained file fault ts (chain fault isOp operand left) := by
  induction left using chain.induct with
  | case1 left ih =>
    rw [chain]
    refine first_explained.of_rest.bind fun op _ => ?_
    split
    · exact (hoperand op.rest).of_rest.of_rest.bind fun right _ => ih op right
    · exact .ok left

lemma product_explained : Explained file fault ts (product file fault ts) :=
  power_explained.bind fun left _ => chain_explained (fun _ => power_explained) left

lemma sum_explained : Explained file fault ts (sum file fault ts) :=
  product_explained.bind fun left _ => chain_explained (fun _ => product_explained) left

lemma statement_explained : Explained file fault ts (statement file fault ts) := by
  refine first_explained.bind fun t ht => ?_
  split
  · refine (expect_explained _).bind fun hi _ => ?_
    exact (expect_explained _).of_rest.bind fun _ _ => .ok _
  · exact sum_explained.bind fun _ _ => .ok _
  · refine (expect_explained _).bind fun word _ => ?_
    exact sum_explained.of_rest.bind fun _ _ => .ok _
  · exact refuse_explained (first_mem ht) _

lemma statements_explained : Explained file fault ts (statements file fault ts) := by
  induction ts using statements.induct with
  | case1 ts ih =>
    rw [statements]
    refine first_explained.bind fun t _ => ?_
    split
    · exact .ok []
    · refine statement_explained.bind fun s _ => ?_
      exact (ih s).of_rest.bind fun _ _ => .ok _

lemma program_explained : Explained file fault ts (program file fault ts) :=
  statements_explained.bind fun _ _ => .ok _

/-- A walk that succeeds has met the end of the text. -/
lemma eof_mem_of_statements_ok {body : List Stmt} (h : statements file fault ts = .ok body) :
    ∃ t ∈ ts, t.kind = .eof := by
  induction ts using statements.induct generalizing body with
  | case1 ts ih =>
    rw [statements, bind_eq_ok] at h
    obtain ⟨t, ht, h⟩ := h
    split at h
    · next hkind => exact ⟨t.value, first_mem ht, hkind⟩
    · obtain ⟨s, -, h⟩ := bind_eq_ok.mp h
      obtain ⟨rest, hrest, -⟩ := bind_eq_ok.mp h
      obtain ⟨u, hu, hkind⟩ := ih s hrest
      exact ⟨u, s.suffix.subset hu, hkind⟩

end

end HiToolchain.TokenWalk
