import HiToolchain.Proofs.MarkDiscipline
import HiToolchain.Proofs.Tokenization

/-!
# Reading makes progress and ends

Tokens, operations and statements are read in loops that carry a bound, and the bound must not be
what ends them. `Loops` runs a loop without one: it stops where its own turn says so, or not at
all. Every turn of every loop of the reader reads a token that takes a character, so each of them
stops by itself, and what it comes to is what the reader yields.
-/

namespace HiToolchain

/-- A loop from `s` on: each turn yields an item and goes on from another state, until one stops
with `r`. The items are told with the states after their turns. -/
inductive Loops {σ α ρ : Type} (turn : σ → (α × σ) ⊕ ρ) : σ → List (α × σ) → ρ → Prop
  | stop {s : σ} {r : ρ} (h : turn s = .inr r) : Loops turn s [] r
  | again {s s' : σ} {a : α} {items : List (α × σ)} {r : ρ} (h : turn s = .inl (a, s'))
      (hrest : Loops turn s' items r) : Loops turn s ((a, s') :: items) r

section

variable {σ α ρ : Type} {turn : σ → (α × σ) ⊕ ρ}

/-- A loop whose turns take from a measure stops, after no more turns than that measure has. -/
lemma Loops.exists_of_lt (measure : σ → Nat)
    (hturn : ∀ s a s', turn s = .inl (a, s') → measure s' < measure s) (s : σ) :
    ∃ items r, Loops turn s items r ∧ items.length ≤ measure s := by
  induction hm : measure s using Nat.strong_induction_on generalizing s with
  | _ m ih =>
    cases hs : turn s with
    | inr r => exact ⟨[], r, .stop hs, Nat.zero_le _⟩
    | inl next =>
      obtain ⟨a, s'⟩ := next
      have hlt : measure s' < measure s := hturn s a s' hs
      obtain ⟨items, r, hloop, hlength⟩ := ih (measure s') (by omega) s' rfl
      refine ⟨(a, s') :: items, r, .again hs hloop, ?_⟩
      rw [List.length_cons]
      omega

/-- What every turn does from one state to the next, as long as an invariant holds. -/
lemma Loops.isChain (inv : σ → Prop) {R : σ → σ → Prop}
    (hturn : ∀ s a s', inv s → turn s = .inl (a, s') → inv s' ∧ R s s') {s : σ}
    {items : List (α × σ)} {r : ρ} (h : Loops turn s items r) (hs : inv s) :
    (s :: items.map Prod.snd).IsChain R := by
  induction h with
  | stop h => exact .singleton _
  | @again s s' a items r h hrest ih =>
    obtain ⟨hs', hR⟩ := hturn s a s' hs h
    rw [List.map_cons, List.isChain_cons_cons]
    exact ⟨hR, ih hs'⟩

end

/-! ### Offsets and the characters left -/

/-- The raw characters after the position of the cursor. -/
def Cursor.remaining (raw : List Char) (c : Cursor) : List Char :=
  raw.drop (c.pos.offset + 1).toNat

lemma extent_le_length (raw : List Char) (k : Nat) : extent raw k ≤ raw.length := by
  induction raw using logical_induction generalizing k with
  | nil => simp [extent, Glyph.ofChars]
  | pair rest ih =>
    cases k with
    | zero => simp [extent_zero]
    | succ k =>
      have hrest := ih k
      rw [extent_pair]
      simp only [List.length_cons]
      omega
  | single c rest h ih =>
    cases k with
    | zero => simp [extent_zero]
    | succ k =>
      have hrest := ih k
      rw [extent_single h]
      simp only [List.length_cons]
      omega

lemma length_uniform_le (raw : List Char) : (uniform raw).length ≤ raw.length := by
  induction raw using logical_induction with
  | nil => simp [uniform, joinPairs]
  | pair rest ih =>
    rw [uniform_pair]
    simp only [List.length_cons]
    omega
  | single c rest h ih =>
    rw [uniform_single h]
    simp only [List.length_cons]
    omega

lemma head_uniform_eq_endMark {raw : List Char} (h : ∀ ch ∈ (uniform raw).head?, ch = endMark) :
    ∀ ch ∈ raw.head?, ch = endMark := by
  induction raw using logical_induction with
  | nil => exact nofun
  | pair rest ih =>
    rw [uniform_pair] at h
    cases h '\n' rfl
  | single c rest hsingle ih =>
    rw [uniform_single hsingle] at h
    have hhead := h _ rfl
    rintro _ ⟨rfl⟩
    by_cases hc : c = '\r'
    · rw [if_pos hc] at hhead
      cases hhead
    · rwa [if_neg hc] at hhead

section

variable {text : String} {c d : Cursor} {j k : Nat}

lemma Cursor.remaining_eq (hc : c.place = (Place.ofText text).forward k) :
    c.remaining text.toList = text.toList.drop (extent text.toList k) := by
  rw [Cursor.remaining, Cursor.pos, hc, forward_ofText_pos, ofIndex_offset, Int.sub_add_cancel,
    Int.toNat_natCast]

/-- What is left of the text has the logical characters that are left to the cursor. -/
lemma Cursor.chars_eq_uniform (hc : c.place = (Place.ofText text).forward k) :
    c.place.chars = uniform (c.remaining text.toList) := by
  have hglyphs : Glyph.ofChars (text.toList.drop (extent text.toList k)) = c.place.rest := by
    rw [ofChars_drop, hc, Place.forward_rest]
    rfl
  rw [Cursor.remaining_eq hc, ← map_char_ofChars, hglyphs, Place.chars]

lemma Cursor.length_rest_le (hc : c.place = (Place.ofText text).forward k) :
    c.place.rest.length ≤ (c.remaining text.toList).length := by
  have hchars := congrArg List.length (Cursor.chars_eq_uniform hc)
  rw [Place.chars, List.length_map] at hchars
  rw [hchars]
  exact length_uniform_le _

lemma Cursor.offset_bounds (hc : c.place = (Place.ofText text).forward k) :
    -1 ≤ c.pos.offset ∧ c.pos.offset < text.toList.length := by
  have hlength := extent_le_length text.toList k
  rw [Cursor.pos, hc, forward_ofText_pos, ofIndex_offset]
  omega

lemma Cursor.offset_le (hc : c.place = (Place.ofText text).forward k) (h : c.Leads d) :
    c.pos.offset ≤ d.pos.offset := by
  obtain ⟨n, hn⟩ := h.place
  have hextent := extent_le text.toList (Nat.le_add_right k n)
  rw [Cursor.pos, Cursor.pos, hn, hc, ← Place.forward_add, forward_ofText_pos, forward_ofText_pos,
    ofIndex_offset, ofIndex_offset]
  omega

/-- A cursor with fewer characters left has a greater offset. -/
lemma Cursor.offset_lt (hc : c.place = (Place.ofText text).forward j)
    (hd : d.place = (Place.ofText text).forward k)
    (hlt : d.place.rest.length < c.place.rest.length) : c.pos.offset < d.pos.offset := by
  have hlength : (Place.ofText text).rest.length = (uniform text.toList).length :=
    length_ofChars text.toList
  rw [hc, hd, Place.forward_rest, Place.forward_rest, List.length_drop, List.length_drop,
    hlength] at hlt
  -- the later index may lie past the end, where the extent stays what it is at the end
  have hreached : extent text.toList j < extent text.toList (min k (uniform text.toList).length) :=
    extent_lt (by omega) (Nat.min_le_right _ _)
  have hextent := extent_le text.toList (Nat.min_le_left k (uniform text.toList).length)
  rw [Cursor.pos, Cursor.pos, hc, hd, forward_ofText_pos, forward_ofText_pos, ofIndex_offset,
    ofIndex_offset]
  omega

end

/-! ### One token -/

/-- What reading a token does to a cursor in the text: it never goes back, a token other than the
end moves it on, and the end stays where it is however often it is read. -/
structure Cursor.NextProgresses (raw : List Char) (c : Cursor) : Prop where
  onward : c.pos.offset ≤ c.nextToken.2.pos.offset
  token : ∀ t d, c.nextToken = (.ok t, d) → t.kind ≠ .eof → c.pos.offset < d.pos.offset
  ended : ∀ t d, c.nextToken = (.ok t, d) → t.kind = .eof →
    (∀ ch ∈ (d.remaining raw).head?, ch = endMark) ∧
      ∀ n, Session.run d (List.replicate n .next) = List.replicate n (.token t, d)

lemma Cursor.skipBlanks_of_next {c : Cursor} (h : c.place.next = endMark) : c.skipBlanks = c := by
  have hread : c.place.readWhile isBlank = ([], c.place) := by
    unfold Place.next at h
    unfold Place.readWhile
    generalize hrest : c.place.rest = rest at h
    have hplace : { c.place with rest := rest } = c.place := by rw [← hrest]
    cases rest with
    | nil => rw [Place.readWhileFrom, hplace]
    | cons g rest =>
      have hmark : g.char = endMark := h
      have hg : isBlank g.char = false := by
        rw [hmark]
        rfl
      rw [Place.readWhileFrom, hg, hplace]
      rfl
  rw [Cursor.skipBlanks, Cursor.readWhile, hread]
  rfl

lemma Cursor.scanToken_of_next {c : Cursor} (h : c.place.next = endMark) :
    c.scanToken = (.ok ⟨.eof, "", .point c.pos⟩, c) := by
  unfold Cursor.scanToken
  rw [h]
  rfl

/-- The end is read at an end mark or where no characters are left. -/
lemma Cursor.next_eq_endMark {c : Cursor} {t : Token} (h : c.nextToken.1 = .ok t)
    (hkind : t.kind = .eof) : c.skipBlanks.place.next = endMark := by
  have hmunch := c.skipBlanks.scanToken_munches.outcome
  change c.nextToken.1 = _ at hmunch
  rw [h, Munch.placed] at hmunch
  split at hmunch
  · next x hx =>
    cases hmunch
    obtain ⟨hformed, -⟩ | ⟨rfl, hend⟩ := munch_cases hx
    · exact (hformed.kind_ne_eof hkind).elim
    · rw [Place.next_eq]
      cases hchars : c.skipBlanks.place.chars with
      | nil => rfl
      | cons ch chars =>
        rw [hchars] at hend
        exact hend ch rfl
  · cases hmunch

lemma Cursor.nextToken_of_end {c d : Cursor} {t : Token} (h : c.nextToken = (.ok t, d))
    (hkind : t.kind = .eof) : d.place.next = endMark ∧ d.nextToken = (.ok t, d) := by
  have hnext : c.skipBlanks.place.next = endMark :=
    Cursor.next_eq_endMark (congrArg Prod.fst h) hkind
  rw [Cursor.nextToken, Cursor.scanToken_of_next hnext] at h
  obtain ⟨⟨rfl⟩, rfl⟩ := Prod.mk.inj h
  refine ⟨hnext, ?_⟩
  rw [Cursor.nextToken, Cursor.skipBlanks_of_next hnext, Cursor.scanToken_of_next hnext]

lemma Session.run_next_of_stays {d : Cursor} {t : Token} (h : d.nextToken = (.ok t, d)) (n : Nat) :
    Session.run d (List.replicate n .next) = List.replicate n (.token t, d) := by
  have hstep : Session.perform d .next = (.token t, d) := by
    rw [Session.perform, h]
    rfl
  induction n with
  | zero => rfl
  | succ n ih => rw [List.replicate_succ, Session.run, hstep, ih, List.replicate_succ]

lemma Cursor.nextProgresses {text : String} {c : Cursor} {k : Nat}
    (hc : c.place = (Place.ofText text).forward k) : c.NextProgresses text.toList := by
  obtain ⟨n, hn⟩ := c.nextToken_leads.place
  have hd : c.nextToken.2.place = (Place.ofText text).forward (k + n) := by
    rw [hn, hc, Place.forward_add]
  refine ⟨Cursor.offset_le hc c.nextToken_leads, ?_, ?_⟩
  · intro t d h hkind
    rw [h] at hd
    exact Cursor.offset_lt hc hd ((Cursor.nextToken_reads h).shorter hkind)
  · intro t d h hkind
    rw [h] at hd
    obtain ⟨hnext, hstays⟩ := Cursor.nextToken_of_end h hkind
    refine ⟨head_uniform_eq_endMark ?_, Session.run_next_of_stays hstays⟩
    rw [← Cursor.chars_eq_uniform hd]
    rw [Place.next_eq] at hnext
    intro ch hch
    obtain ⟨rest, hrest⟩ := List.head?_eq_some_iff.mp hch
    rwa [hrest] at hnext

/-! ### All tokens -/

/-- One turn of the reading of all tokens: it reads one token. -/
def Cursor.tokenTurn (c : Cursor) :
    (Token × Cursor) ⊕ ((List Token × Option LexFault) × Cursor) :=
  match c.nextToken with
  | (.error fault, d) => .inr (([], some fault), d)
  | (.ok t, d) => if t.kind = .eof then .inr (([t], none), d) else .inl (t, d)

lemma Cursor.length_of_tokenTurn {c d : Cursor} {t : Token} (h : c.tokenTurn = .inl (t, d)) :
    d.place.rest.length < c.place.rest.length := by
  unfold Cursor.tokenTurn at h
  generalize hnext : c.nextToken = r at h
  obtain ⟨result, e⟩ := r
  cases result with
  | error fault => cases h
  | ok u =>
    dsimp only at h
    split at h
    · cases h
    · next hkind =>
      cases h
      exact (Cursor.nextToken_reads hnext).shorter hkind

lemma Cursor.tokensWithin_succ (fuel : Nat) (c : Cursor) :
    c.tokensWithin (fuel + 1) =
      match c.tokenTurn with
      | .inl (t, d) =>
        ((t :: (d.tokensWithin fuel).1.1, (d.tokensWithin fuel).1.2), (d.tokensWithin fuel).2)
      | .inr r => r := by
  unfold Cursor.tokenTurn
  rw [Cursor.tokensWithin]
  generalize c.nextToken = next
  obtain ⟨result, d⟩ := next
  cases result with
  | error fault => rfl
  | ok t =>
    dsimp only
    split
    · rfl
    · rfl

lemma Cursor.tokensWithin_loop {c : Cursor} {items : List (Token × Cursor)}
    {r : (List Token × Option LexFault) × Cursor} (h : Loops Cursor.tokenTurn c items r)
    {fuel : Nat} (hfuel : items.length < fuel) :
    c.tokensWithin fuel = ((items.map Prod.fst ++ r.1.1, r.1.2), r.2) := by
  induction h generalizing fuel with
  | stop h =>
    obtain ⟨fuel, rfl⟩ := Nat.exists_eq_add_one_of_ne_zero (Nat.ne_of_gt hfuel)
    rw [Cursor.tokensWithin_succ, h]
    rfl
  | @again c d t items r h hrest ih =>
    rw [List.length_cons] at hfuel
    obtain ⟨fuel, rfl⟩ := Nat.exists_eq_add_one_of_ne_zero (Nat.ne_of_gt (Nat.zero_lt_of_lt hfuel))
    have hnext : d.tokensWithin fuel = ((items.map Prod.fst ++ r.1.1, r.1.2), r.2) :=
      ih (by omega)
    rw [Cursor.tokensWithin_succ, h]
    simp only [hnext]
    rfl

/-- The reading of all tokens stops by itself, after one token more than there are characters left
or sooner. -/
lemma Cursor.tokens_loop (c : Cursor) : ∃ items r, Loops Cursor.tokenTurn c items r ∧
    items.length ≤ c.place.rest.length ∧
    c.tokens = ((items.map Prod.fst ++ r.1.1, r.1.2), r.2) := by
  obtain ⟨items, r, hloop, hlength⟩ : ∃ items r, Loops Cursor.tokenTurn c items r ∧
      items.length ≤ c.place.rest.length :=
    Loops.exists_of_lt (fun c => c.place.rest.length) (fun _ _ _ => Cursor.length_of_tokenTurn) c
  exact ⟨items, r, hloop, hlength, Cursor.tokensWithin_loop hloop (by omega)⟩

/-! ### Parsers that take characters -/

namespace Parser

/-- What a parser reads takes at least one character. -/
def Shortens {α : Type} (p : Parser α) : Prop :=
  ∀ s a s', p s = .ok a s' → s'.cursor.place.rest.length < s.cursor.place.rest.length

section

variable {α β : Type} {p : Parser α} {q : α → Parser β}

lemma bind_ok {s s' : ParseState} {b : β} (h : (p >>= q) s = .ok b s') :
    ∃ a s₁, p s = .ok a s₁ ∧ q a s₁ = .ok b s' := by
  change EStateM.bind p q s = .ok b s' at h
  unfold EStateM.bind at h
  cases hp : p s with
  | ok a s₁ =>
    rw [hp] at h
    exact ⟨a, s₁, rfl, h⟩
  | error e s₁ =>
    rw [hp] at h
    cases h

lemma Advances.leads {s s' : ParseState} {a : α} (hp : Advances p) (h : p s = .ok a s') :
    s.cursor.Leads s'.cursor := by
  have hleads := hp s
  unfold leaves at hleads
  rwa [h] at hleads

lemma Shortens.bind (hp : Shortens p) (hq : ∀ a, Advances (q a)) : Shortens (p >>= q) := by
  intro s b s' h
  obtain ⟨a, s₁, hfirst, hnext⟩ := bind_ok h
  exact Nat.lt_of_le_of_lt ((hq a).leads hnext).length_le (hp s a s₁ hfirst)

lemma Advances.bind_shortens (hp : Advances p) (hq : ∀ a, Shortens (q a)) :
    Shortens (p >>= q) := by
  intro s b s' h
  obtain ⟨a, s₁, hfirst, hnext⟩ := bind_ok h
  exact Nat.lt_of_lt_of_le (hq a s₁ b s' hnext) (hp.leads hfirst).length_le

end

lemma unexpected_shortens {α : Type} (t : Token) (expected : List TokenKind) :
    Shortens (unexpected (α := α) t expected) := by
  intro s a s' h
  cases h

lemma expect_shortens {kind : TokenKind} (hkind : kind ≠ .eof) : Shortens (expect kind) := by
  intro s t s' h
  obtain ⟨u, s₁, hnext, h⟩ := bind_ok h
  split at h
  · next hu =>
    cases h
    unfold next scan at hnext
    generalize hread : s.cursor.nextToken = r at hnext
    obtain ⟨result, c⟩ := r
    cases result with
    | error fault => cases hnext
    | ok v =>
      cases hnext
      exact (Cursor.nextToken_reads hread).shorter (hu ▸ hkind)
  · cases h

lemma number_shortens : Shortens number :=
  (expect_shortens (by decide)).bind fun _ => pure_advances _

lemma power_shortens (fuel : Nat) : Shortens (power fuel) := by
  cases fuel with
  | zero => exact number_shortens
  | succ fuel =>
    refine number_shortens.bind fun left => peek_advances.bind fun t => ?_
    split
    · exact next_advances.bind fun op => (power_advances fuel).bind fun right => pure_advances _
    · exact pure_advances left

lemma product_shortens (fuel : Nat) : Shortens (product fuel) :=
  (power_shortens fuel).bind fun left => chain_advances (power_advances fuel) fuel left

lemma sum_shortens (fuel : Nat) : Shortens (sum fuel) :=
  (product_shortens fuel).bind fun left => chain_advances (product_advances fuel) fuel left

lemma statement_shortens (fuel : Nat) (t : Token) : Shortens (statement fuel t) := by
  unfold statement
  split
  · exact (expect_shortens (by decide)).bind fun hi =>
      (expect_advances .string).bind fun name => pure_advances _
  · exact (sum_shortens fuel).bind fun value => pure_advances _
  · exact (expect_shortens (by decide)).bind fun word => (sum_advances fuel).bind fun value =>
      position_advances.bind fun stop => pure_advances _
  · exact unexpected_shortens t _

/-! ### The loops of the parser -/

/-- The turn of a loop whose body either yields an item or a last value. -/
def turn {α β : Type} (body : Parser (α ⊕ β)) (s : ParseState) :
    (α × ParseState) ⊕ EStateM.Result ReadFault ParseState β :=
  match body s with
  | .ok (.inl a) s' => .inl (a, s')
  | .ok (.inr b) s' => .inr (.ok b s')
  | .error fault s' => .inr (.error fault s')

/-- A result with its value replaced; a fault stays. -/
def yields {α β : Type} (f : α → β) :
    EStateM.Result ReadFault ParseState α → EStateM.Result ReadFault ParseState β
  | .ok a s => .ok (f a) s
  | .error fault s => .error fault s

/-- A base with the operator after it, or the last number. -/
def powerBody : Parser ((Expr × Token) ⊕ Expr) := do
  let left ← number
  if (← peek).kind = .power then
    let op ← next
    return .inl (left, op)
  else return .inr left

/-- An operator with its right operand, or nothing where none comes. -/
def chainBody (isOp : TokenKind → Bool) (operand : Parser Expr) : Parser ((Token × Expr) ⊕ Unit) :=
  do
    if isOp (← peek).kind then
      let op ← next
      let right ← operand
      return .inl (op, right)
    else return .inr ()

/-- A statement, which is noted, or nothing at the end of the text. -/
def statementBody (fuel : Nat) : Parser (Stmt ⊕ Unit) := do
  let t ← peek
  if t.kind = .eof then return .inr ()
  else
    let s ← statement fuel t
    modify fun st => { st with log := st.log.push (.statement s.kind s.span) }
    return .inl s

section

variable {α β γ : Type} {body : Parser (α ⊕ β)} {s s' : ParseState}

lemma turn_eq_again {a : α} : turn body s = .inl (a, s') ↔ body s = .ok (.inl a) s' := by
  unfold turn
  split
  · next b s₁ h => simp [h]
  · next b s₁ h => simp [h]
  · next fault s₁ h => simp [h]

/-- What follows the body of a loop sees what its turn comes to. -/
lemma bind_of_again {k : α ⊕ β → Parser γ} {a : α} (h : turn body s = .inl (a, s')) :
    (body >>= k) s = k (.inl a) s' := by
  change EStateM.bind body k s = _
  rw [EStateM.bind, turn_eq_again.mp h]

lemma bind_of_stop {k : α ⊕ β → Parser γ} {f : β → γ} {r : EStateM.Result ReadFault ParseState β}
    (hk : ∀ b, k (.inr b) = pure (f b)) (h : turn body s = .inr r) :
    (body >>= k) s = yields f r := by
  change EStateM.bind body k s = _
  unfold turn at h
  unfold EStateM.bind
  split at h
  · cases h
  · next b s₁ hbody =>
    cases h
    rw [hbody]
    dsimp only
    rw [hk]
    rfl
  · next fault s₁ hbody =>
    cases h
    rw [hbody]
    rfl

end

lemma powerBody_shortens : ∀ s a s', turn powerBody s = .inl (a, s') →
    s'.cursor.place.rest.length < s.cursor.place.rest.length := by
  have hbody : Shortens powerBody := by
    refine number_shortens.bind fun left => peek_advances.bind fun t => ?_
    split
    · exact next_advances.bind fun op => pure_advances _
    · exact pure_advances _
  exact fun s a s' h => hbody s _ s' (turn_eq_again.mp h)

lemma chainBody_shortens {isOp : TokenKind → Bool} {operand : Parser Expr}
    (hoperand : Shortens operand) : ∀ s a s', turn (chainBody isOp operand) s = .inl (a, s') →
      s'.cursor.place.rest.length < s.cursor.place.rest.length := by
  intro s a s' h
  obtain ⟨t, s₁, hpeek, h⟩ := bind_ok (turn_eq_again.mp h)
  have hlooked := (peek_advances.leads hpeek).length_le
  split at h
  · have hrest : Shortens (do
        let op ← next
        let right ← operand
        return .inl (op, right) : Parser ((Token × Expr) ⊕ Unit)) :=
      next_advances.bind_shortens fun op => hoperand.bind fun right => pure_advances _
    exact Nat.lt_of_lt_of_le (hrest s₁ _ s' h) hlooked
  · cases h

lemma statementBody_shortens (fuel : Nat) : ∀ s a s', turn (statementBody fuel) s = .inl (a, s') →
    s'.cursor.place.rest.length < s.cursor.place.rest.length := by
  intro s a s' h
  obtain ⟨t, s₁, hpeek, h⟩ := bind_ok (turn_eq_again.mp h)
  have hlooked := (peek_advances.leads hpeek).length_le
  split at h
  · cases h
  · obtain ⟨_, s₂, hread, h⟩ := bind_ok h
    cases h
    exact Nat.lt_of_lt_of_le (statement_shortens fuel t s₁ _ s₂ hread) hlooked

lemma statementBody_advances (fuel : Nat) : Advances (statementBody fuel) := by
  refine peek_advances.bind fun t => ?_
  split
  · exact pure_advances _
  · refine (statement_advances fuel t).bind fun st => ?_
    have hnote : Advances (modify fun s : ParseState =>
        { s with log := s.log.push (.statement st.kind st.span) }) := fun s => .refl s.cursor
    exact hnote.bind fun _ => pure_advances _

/-! ### The bounds are never reached -/

/-- What a recursion does with the outcome of its body: it puts an item together with what the
rest of the recursion yields, or ends with a last value. -/
def afterBody {α β γ : Type} (rest : Parser γ) (combine : α → γ → γ) (finish : β → γ) :
    α ⊕ β → Parser γ
  | .inl a => do
    let c ← rest
    return combine a c
  | .inr b => return finish b

lemma power_succ (fuel : Nat) : power (fuel + 1) =
    powerBody >>= afterBody (power fuel) (fun x right => operation x.2.kind x.1 right) id := by
  rw [power, powerBody, bind_assoc]
  refine bind_congr fun left => ?_
  rw [bind_assoc]
  refine bind_congr fun t => ?_
  split
  · rw [bind_assoc]
    rfl
  · rfl

lemma chain_succ (isOp : TokenKind → Bool) (operand : Parser Expr) (fuel : Nat) (left : Expr) :
    chain isOp operand (fuel + 1) left = chainBody isOp operand >>= fun
      | .inl (op, right) => chain isOp operand fuel (operation op.kind left right)
      | .inr () => return left := by
  rw [chain, chainBody, bind_assoc]
  refine bind_congr fun t => ?_
  split
  · rw [bind_assoc]
    refine bind_congr fun op => ?_
    rw [bind_assoc]
    rfl
  · rfl

lemma statements_succ (enough fuel : Nat) : statements enough (fuel + 1) =
    statementBody enough >>= afterBody (statements enough fuel) List.cons fun _ => [] := by
  rw [statements, statementBody, bind_assoc]
  refine bind_congr fun t => ?_
  split
  · rfl
  · rw [bind_assoc]
    refine bind_congr fun s => ?_
    rw [bind_assoc]
    rfl

/-- A bounded recursion with more fuel than its loop has turns comes to what the loop comes to:
its value is put together from the items, the last one first. -/
lemma loop_yields {α β γ : Type} {body : Parser (α ⊕ β)} {f : Nat → Parser γ}
    {combine : α → γ → γ} {finish : β → γ}
    (hf : ∀ fuel, f (fuel + 1) = body >>= afterBody (f fuel) combine finish)
    {s : ParseState} {items : List (α × ParseState)} {r : EStateM.Result ReadFault ParseState β}
    (h : Loops (turn body) s items r) {fuel : Nat} (hfuel : items.length < fuel) :
    f fuel s = yields (fun b => (items.map Prod.fst).foldr combine (finish b)) r := by
  induction h generalizing fuel with
  | stop h =>
    obtain ⟨fuel, rfl⟩ := Nat.exists_eq_add_one_of_ne_zero (Nat.ne_of_gt hfuel)
    rw [hf]
    exact bind_of_stop (fun _ => rfl) h
  | @again s s' a items r h hrest ih =>
    rw [List.length_cons] at hfuel
    obtain ⟨fuel, rfl⟩ := Nat.exists_eq_add_one_of_ne_zero (Nat.ne_of_gt (Nat.zero_lt_of_lt hfuel))
    have hnext : f fuel s' = yields _ r := ih (by omega)
    rw [hf, bind_of_again h]
    change EStateM.bind (f fuel) _ s' = _
    rw [EStateM.bind, hnext]
    cases r <;> rfl

lemma chain_loop {isOp : TokenKind → Bool} {operand : Parser Expr} {s : ParseState}
    {items : List ((Token × Expr) × ParseState)} {r : EStateM.Result ReadFault ParseState Unit}
    (h : Loops (turn (chainBody isOp operand)) s items r) {fuel : Nat}
    (hfuel : items.length < fuel) (left : Expr) :
    chain isOp operand fuel left s = yields (fun _ =>
      (items.map Prod.fst).foldl (fun left x => operation x.1.kind left x.2) left) r := by
  induction h generalizing fuel left with
  | stop h =>
    obtain ⟨fuel, rfl⟩ := Nat.exists_eq_add_one_of_ne_zero (Nat.ne_of_gt hfuel)
    rw [chain_succ]
    exact bind_of_stop (fun _ => rfl) h
  | @again s s' item items r h hrest ih =>
    rw [List.length_cons] at hfuel
    obtain ⟨fuel, rfl⟩ := Nat.exists_eq_add_one_of_ne_zero (Nat.ne_of_gt (Nat.zero_lt_of_lt hfuel))
    rw [chain_succ, bind_of_again h]
    exact ih (by omega) _

/-- The reading of an expression stops by itself at every level of precedence: from `s` on, each
of the bounded functions yields what the loop of its own body comes to, which has fewer turns than
`fuel`. -/
structure ExprLoopsStop (fuel : Nat) (s : ParseState) : Prop where
  power : ∃ items r, Loops (turn powerBody) s items r ∧ items.length < fuel ∧
    Parser.power fuel s = yields (fun last =>
      (items.map Prod.fst).foldr (fun x right => operation x.2.kind x.1 right) last) r
  chain : ∀ isOp, ∀ operand ∈ [Parser.power fuel, Parser.product fuel], ∀ left, ∃ items r,
    Loops (turn (chainBody isOp operand)) s items r ∧ items.length < fuel ∧
    Parser.chain isOp operand fuel left s = yields (fun _ =>
      (items.map Prod.fst).foldl (fun left x => operation x.1.kind left x.2) left) r

lemma exprLoopsStop {fuel : Nat} {s : ParseState} (hfuel : s.cursor.place.rest.length < fuel) :
    ExprLoopsStop fuel s := by
  constructor
  · obtain ⟨items, r, hloop, hlength⟩ := Loops.exists_of_lt _ powerBody_shortens s
    exact ⟨items, r, hloop, by omega, loop_yields power_succ hloop (by omega)⟩
  · intro isOp operand hoperand left
    have hshortens : Shortens operand := by
      simp only [List.mem_cons, List.not_mem_nil, or_false] at hoperand
      obtain rfl | rfl := hoperand
      · exact power_shortens fuel
      · exact product_shortens fuel
    obtain ⟨items, r, hloop, hlength⟩ := Loops.exists_of_lt _ (chainBody_shortens hshortens) s
    exact ⟨items, r, hloop, by omega, chain_loop hloop (by omega) left⟩

/-- What the reading of a program from `start` comes to if its loop has read these statements and
stopped with `r`. -/
def collected (start : Position) (items : List (Stmt × ParseState)) :
    EStateM.Result ReadFault ParseState Unit → Except ReadFault Program × ParseState
  | .ok _ s => (.ok ⟨⟨start, s.cursor.pos⟩, items.map Prod.fst⟩, s)
  | .error fault s => (.error fault, s)

end Parser

/-- The statements of a program are read in a loop that stops by itself, on every text. -/
lemma Cursor.parse_loop (c : Cursor) : ∃ items r,
    Loops (Parser.turn (Parser.statementBody (c.place.rest.length + 1))) ⟨c, #[]⟩ items r ∧
      items.length ≤ c.place.rest.length ∧ c.parse = Parser.collected c.pos items r := by
  obtain ⟨items, r, hloop, hlength⟩ := Loops.exists_of_lt _
    (Parser.statementBody_shortens (c.place.rest.length + 1)) ⟨c, #[]⟩
  refine ⟨items, r, hloop, hlength, ?_⟩
  have hbody := Parser.loop_yields (Parser.statements_succ _) hloop (Nat.lt_succ_of_le hlength)
  rw [List.foldr_cons_nil] at hbody
  have hprogram : Parser.program ⟨c, #[]⟩ =
      EStateM.bind (Parser.statements (c.place.rest.length + 1) (c.place.rest.length + 1))
        (fun body => (do return ⟨⟨c.pos, ← Parser.position⟩, body⟩ : Parser Program))
        ⟨c, #[]⟩ := rfl
  unfold EStateM.bind at hprogram
  rw [hbody] at hprogram
  unfold Cursor.parse
  rw [hprogram]
  cases r <;> rfl

/-- From every cursor that a session reaches. The offset is that of a character of the text, or
`-1`. Reading a token fails, or moves the cursor on, or finds the end, where nothing or an end mark
is left and where it stays. Reading all tokens takes at most one reading of a token more than there
are characters left. Reading a program, whether or not it succeeds, reads statements that each move
the cursor on, and at most as many as there are characters left; no loop in it, down to those of
expressions, is ended by its bound. -/
theorem session_reading_ends (text file : String) (steps : List Session.Step) :
    let raw := text.toList
    let c := Session.leave (.ofText text file) steps
    let fuel := c.place.rest.length + 1
    (-1 ≤ c.pos.offset ∧ c.pos.offset < raw.length) ∧
    c.NextProgresses raw ∧
    (∃ items r, Loops Cursor.tokenTurn c items r ∧
      items.length ≤ (c.remaining raw).length ∧
      c.tokens = ((items.map Prod.fst ++ r.1.1, r.1.2), r.2)) ∧
    (∃ items r, Loops (Parser.turn (Parser.statementBody fuel)) ⟨c, #[]⟩ items r ∧
      items.length ≤ (c.remaining raw).length ∧
      (⟨c, #[]⟩ :: items.map Prod.snd).IsChain
        (fun s s' => s.cursor.pos.offset < s'.cursor.pos.offset) ∧
      c.parse = Parser.collected c.pos items r) ∧
    ∀ s : ParseState, s.cursor.place.rest.length < fuel → Parser.ExprLoopsStop fuel s := by
  intro raw c fuel
  have hwithin : c.Within text := Session.leave_within (Cursor.ofText_within text file) steps
  obtain ⟨k, hk⟩ := hwithin c.place List.mem_cons_self
  have hleft : c.place.rest.length ≤ (c.remaining raw).length := Cursor.length_rest_le hk
  obtain ⟨tokens, last, htokens, htokensLength, htokensEq⟩ := c.tokens_loop
  obtain ⟨stmts, r, hstmts, hstmtsLength, hparse⟩ := c.parse_loop
  refine ⟨Cursor.offset_bounds hk, Cursor.nextProgresses hk,
    ⟨tokens, last, htokens, htokensLength.trans hleft, htokensEq⟩,
    ⟨stmts, r, hstmts, hstmtsLength.trans hleft, ?_, hparse⟩,
    fun s hs => Parser.exprLoopsStop hs⟩
  refine hstmts.isChain (fun s => ∃ j, s.cursor.place = (Place.ofText text).forward j) ?_
    ⟨k, hk⟩
  rintro s st s' ⟨j, hj⟩ hturn
  obtain ⟨n, hn⟩ :=
    ((Parser.statementBody_advances fuel).leads (Parser.turn_eq_again.mp hturn)).place
  have hs' : s'.cursor.place = (Place.ofText text).forward (j + n) := by
    rw [hn, hj, Place.forward_add]
  exact ⟨⟨j + n, hs'⟩,
    Cursor.offset_lt hj hs' (Parser.statementBody_shortens fuel s st s' hturn)⟩

end HiToolchain
