import HiToolchain.Proofs.CursorIndex

/-!
# Marks over whole sessions

Tokens are looked at by setting a mark and going back to it, and a program is read by many such
looks, any of which may end in a fault. `Session.Takes` says once what each step does to the marks:
reading of any kind leaves them as they are, a push adds the present place, and a restore or drop
removes the latest mark or changes nothing at all. What holds over a whole session follows from
that step by step.
-/

namespace HiToolchain

/-! ### Reading tokens and programs keeps the marks -/

lemma Cursor.peekToken_leads (c : Cursor) : c.Leads c.peekToken.2 := by
  rw [Cursor.peekToken_eq]
  exact ⟨rfl, rfl, 0, rfl⟩

lemma Cursor.tokensWithin_leads (fuel : Nat) (c : Cursor) : c.Leads (c.tokensWithin fuel).2 := by
  induction fuel generalizing c with
  | zero => exact .refl c
  | succ fuel ih =>
    have hnext := c.nextToken_leads
    rw [Cursor.tokensWithin]
    generalize c.nextToken = r at hnext
    obtain ⟨result, d⟩ := r
    cases result with
    | error fault => exact hnext
    | ok t =>
      dsimp only
      by_cases hkind : t.kind = .eof
      · rw [if_pos hkind]
        exact hnext
      · rw [if_neg hkind]
        exact hnext.trans (ih d)

namespace Parser

/-- The state that a parser leaves, also when it fails. -/
def leaves {α : Type} (p : Parser α) (s : ParseState) : ParseState :=
  match p s with
  | .ok _ s' => s'
  | .error _ s' => s'

/-- A parser does nothing to its cursor but read. -/
def Advances {α : Type} (p : Parser α) : Prop :=
  ∀ s : ParseState, s.cursor.Leads (leaves p s).cursor

lemma Advances.bind {α β : Type} {p : Parser α} {q : α → Parser β} (hp : Advances p)
    (hq : ∀ a, Advances (q a)) : Advances (p >>= q) := by
  intro s
  have hfirst := hp s
  change s.cursor.Leads (leaves (EStateM.bind p q) s).cursor
  unfold leaves at hfirst ⊢
  unfold EStateM.bind
  cases hs : p s with
  | ok a s' =>
    rw [hs] at hfirst
    exact hfirst.trans (hq a s')
  | error e s' =>
    rw [hs] at hfirst
    exact hfirst

lemma pure_advances {α : Type} (a : α) : Advances (pure a) := fun s => .refl s.cursor

lemma position_advances : Advances position := fun s => .refl s.cursor

lemma unexpected_advances {α : Type} (t : Token) (expected : List TokenKind) :
    Advances (unexpected (α := α) t expected) := fun s => .refl s.cursor

lemma scan_advances {read : Cursor → Cursor.Scanned Token}
    (h : ∀ c : Cursor, c.Leads (read c).2) : Advances (scan read) := by
  intro s
  have hread := h s.cursor
  unfold leaves scan
  generalize read s.cursor = r at hread
  obtain ⟨result, c⟩ := r
  cases result with
  | ok t => exact hread
  | error fault => exact hread

lemma next_advances : Advances next := scan_advances Cursor.nextToken_leads

lemma peek_advances : Advances peek := scan_advances Cursor.peekToken_leads

lemma expect_advances (kind : TokenKind) : Advances (expect kind) := by
  refine next_advances.bind fun t => ?_
  split
  · exact pure_advances t
  · exact unexpected_advances t [kind]

lemma number_advances : Advances number :=
  (expect_advances .number).bind fun _ => pure_advances _

lemma power_advances (fuel : Nat) : Advances (power fuel) := by
  induction fuel with
  | zero => exact number_advances
  | succ fuel ih =>
    refine number_advances.bind fun left => peek_advances.bind fun t => ?_
    split
    · exact next_advances.bind fun op => ih.bind fun right => pure_advances _
    · exact pure_advances left

lemma chain_advances {isOp : TokenKind → Bool} {operand : Parser Expr} (hoperand : Advances operand)
    (fuel : Nat) (left : Expr) : Advances (chain isOp operand fuel left) := by
  induction fuel generalizing left with
  | zero => exact pure_advances left
  | succ fuel ih =>
    refine peek_advances.bind fun t => ?_
    split
    · exact next_advances.bind fun op => hoperand.bind fun right => ih _
    · exact pure_advances left

lemma product_advances (fuel : Nat) : Advances (product fuel) :=
  (power_advances fuel).bind fun left => chain_advances (power_advances fuel) fuel left

lemma sum_advances (fuel : Nat) : Advances (sum fuel) :=
  (product_advances fuel).bind fun left => chain_advances (product_advances fuel) fuel left

lemma statement_advances (fuel : Nat) (t : Token) : Advances (statement fuel t) := by
  unfold statement
  split
  · exact (expect_advances .hi).bind fun hi => (expect_advances .string).bind fun name =>
      pure_advances _
  · exact (sum_advances fuel).bind fun value => pure_advances _
  · exact (expect_advances .print).bind fun word => (sum_advances fuel).bind fun value =>
      position_advances.bind fun stop => pure_advances _
  · exact unexpected_advances t _

lemma statements_advance (exprFuel fuel : Nat) : Advances (statements exprFuel fuel) := by
  induction fuel with
  | zero => exact pure_advances []
  | succ fuel ih =>
    refine peek_advances.bind fun t => ?_
    split
    · exact pure_advances []
    · refine (statement_advances exprFuel t).bind fun st => ?_
      have hnote : Advances (modify fun s : ParseState =>
          { s with log := s.log.push (.statement st.kind st.span) }) := fun s => .refl s.cursor
      exact hnote.bind fun _ => ih.bind fun rest => pure_advances _

lemma program_advances : Advances program := by
  have hget : Advances (get : Parser ParseState) := fun s => .refl s.cursor
  refine position_advances.bind fun start => hget.bind fun s => ?_
  exact (statements_advance _ _).bind fun body => position_advances.bind fun stop =>
    pure_advances _

end Parser

lemma Cursor.parse_leads (c : Cursor) : c.Leads c.parse.2.cursor := by
  have hprogram := Parser.program_advances ⟨c, #[]⟩
  unfold Parser.leaves at hprogram
  unfold Cursor.parse
  cases hresult : Parser.program ⟨c, #[]⟩ with
  | ok p s =>
    rw [hresult] at hprogram
    exact hprogram
  | error fault s =>
    rw [hresult] at hprogram
    exact hprogram

/-! ### What a step does to the marks -/

namespace Session

/-- A step that takes back a mark if there is one. -/
def Step.isPop : Step → Bool
  | restore | drop => true
  | _ => false

/-- A step that looks ahead and goes nowhere. -/
def Step.isLook : Step → Bool
  | peek _ | peekToken => true
  | _ => false

/-- The cursor that a session leaves. -/
def leave (c : Cursor) (steps : List Step) : Cursor :=
  steps.foldl (fun c s => (perform c s).2) c

/-- The number of steps of a session that took back a mark. -/
def pops (c : Cursor) (steps : List Step) : Nat :=
  (steps.zip (run c steps)).countP fun r => r.1.isPop && r.2.1 = .done

/-- What a step does to the marks of `c`, with its outcome and the cursor after it. -/
inductive Takes (c : Cursor) : Step → Outcome → Cursor → Prop
  | reads {s : Step} {o : Outcome} {d : Cursor} (hpush : s ≠ .push) (hpop : s.isPop = false)
      (h : c.Leads d) : Takes c s o d
  | pushes : Takes c .push .done c.push
  | pops {s : Step} {d : Cursor} {m : Place} (hpop : s.isPop) (hmarks : c.marks = m :: d.marks)
      (hplace : d.place = c.place ∨ d.place = m) : Takes c s .done d
  | fails {s : Step} (hpop : s.isPop) (hmarks : c.marks = []) :
      Takes c s (.unbalanced ⟨c.file⟩) c

lemma scanned_snd (r : Cursor.Scanned Token) : (scanned r).2 = r.2 := by
  obtain ⟨result, d⟩ := r
  cases result <;> rfl

lemma perform_takes (c : Cursor) (s : Step) : Takes c s (perform c s).1 (perform c s).2 := by
  cases s with
  | read n => exact .reads (by simp) rfl (c.leads_read n)
  | peek n => exact .reads (by simp) rfl (.refl c)
  | push => exact .pushes
  | restore =>
    simp only [perform, Cursor.restore]
    cases hmarks : c.marks with
    | nil => exact .fails rfl hmarks
    | cons m marks => exact .pops rfl hmarks (.inr rfl)
  | drop =>
    simp only [perform, Cursor.drop]
    cases hmarks : c.marks with
    | nil => exact .fails rfl hmarks
    | cons m marks => exact .pops rfl hmarks (.inl rfl)
  | next =>
    refine .reads (by simp) rfl ?_
    rw [perform, scanned_snd]
    exact c.nextToken_leads
  | peekToken =>
    refine .reads (by simp) rfl ?_
    rw [perform, scanned_snd]
    exact c.peekToken_leads
  | tokens =>
    have htokens : c.Leads c.tokens.2 := c.tokensWithin_leads _
    exact .reads (by simp) rfl htokens
  | parse =>
    refine .reads (by simp) rfl ?_
    have hparse := c.parse_leads
    rw [perform]
    generalize c.parse = r at hparse
    obtain ⟨result, state⟩ := r
    cases result with
    | ok p => exact hparse
    | error fault => exact hparse

section

variable {c d : Cursor} {s : Step} {o : Outcome}

lemma Takes.depth (h : Takes c s o d) :
    d.depth + (if s.isPop && o = .done then 1 else 0) = c.depth + if s = .push then 1 else 0 := by
  unfold Cursor.depth
  cases h with
  | reads hpush hpop h => simp [hpush, hpop, h.marks]
  | pushes => simp [Step.isPop, Cursor.push]
  | pops hpop hmarks hplace =>
    have hpush : s ≠ .push := by
      rintro rfl
      cases hpop
    simp [hpop, hpush, hmarks]
  | fails hpop hmarks =>
    have hpush : s ≠ .push := by
      rintro rfl
      cases hpop
    simp [hpush, hmarks]

lemma Takes.marks (h : Takes c s o d) (hpush : s ≠ .push) (hpop : s.isPop = false) :
    d.marks = c.marks := by
  cases h with
  | reads _ _ h => exact h.marks
  | pushes => exact (hpush rfl).elim
  | pops hpop' hmarks hplace =>
    rw [hpop] at hpop'
    cases hpop'
  | fails hpop' hmarks => rfl

/-- Marks that a step does not reach down to stay as they are. -/
lemma Takes.suffix (h : Takes c s o d) {base : List Place} (hbase : base <:+ c.marks)
    (hdepth : base.length ≤ d.depth) : base <:+ d.marks := by
  unfold Cursor.depth at hdepth
  cases h with
  | reads hpush hpop h => rwa [h.marks]
  | pushes => exact hbase.trans (List.suffix_cons _ _)
  | pops hpop hmarks hplace =>
    rw [hmarks] at hbase
    obtain heq | hsuffix := List.suffix_cons_iff.mp hbase
    · rw [heq, List.length_cons] at hdepth
      omega
    · exact hsuffix
  | fails hpop hmarks => exact hbase

lemma pop_cases (hpop : s.isPop) :
    (c.marks = [] ∧ perform c s = (.unbalanced ⟨c.file⟩, c)) ∨
      (c.marks ≠ [] ∧ (perform c s).1 = .done) := by
  cases s with
  | restore =>
    simp only [perform, Cursor.restore]
    cases hmarks : c.marks with
    | nil => exact .inl ⟨rfl, rfl⟩
    | cons m marks => exact .inr ⟨List.cons_ne_nil m marks, rfl⟩
  | drop =>
    simp only [perform, Cursor.drop]
    cases hmarks : c.marks with
    | nil => exact .inl ⟨rfl, rfl⟩
    | cons m marks => exact .inr ⟨List.cons_ne_nil m marks, rfl⟩
  | _ => cases hpop

end

/-! ### Whole sessions -/

lemma depth_leave (c : Cursor) (steps : List Step) :
    (leave c steps).depth + pops c steps = c.depth + steps.count .push := by
  induction steps generalizing c with
  | nil => rfl
  | cons s steps ih =>
    have hstep := (perform_takes c s).depth
    have hrest := ih (perform c s).2
    have hpops : pops c (s :: steps) = pops (perform c s).2 steps +
        if s.isPop && (perform c s).1 = .done then 1 else 0 := by
      unfold pops
      rw [run, List.zip_cons_cons, List.countP_cons]
    have hpushes : (s :: steps).count .push = steps.count .push + if s = .push then 1 else 0 := by
      rw [List.count_cons]
      simp
    change (leave (perform c s).2 steps).depth + _ = _
    omega

/-- Marks that no step of a session reaches down to are there at its end. -/
lemma suffix_leave {base : List Place} {c : Cursor} {steps : List Step} (hbase : base <:+ c.marks)
    (hdepth : ∀ r ∈ run c steps, base.length ≤ r.2.depth) : base <:+ (leave c steps).marks := by
  induction steps generalizing c with
  | nil => exact hbase
  | cons s steps ih =>
    rw [run, List.forall_mem_cons] at hdepth
    exact ih ((perform_takes c s).suffix hbase hdepth.1) hdepth.2

end Session

/-! ### The character at a position -/

/-- The character with the given raw offset, made uniform; there is none before the first one. -/
def charAt? (raw : List Char) (offset : Int) : Option Char :=
  if offset < 0 then none
  else raw[offset.toNat]?.map fun ch => if ch = '\r' then '\n' else ch

lemma charAt?_cons {raw : List Char} {offset : Int} {ch : Char} (c : Char)
    (h : charAt? raw offset = some ch) : charAt? (c :: raw) (offset + 1) = some ch := by
  unfold charAt? at h ⊢
  by_cases hneg : offset < 0
  · rw [if_pos hneg] at h
    cases h
  · have hnat : (offset + 1).toNat = offset.toNat + 1 := by omega
    rw [if_neg hneg] at h
    rw [if_neg (by omega), hnat, List.getElem?_cons_succ]
    exact h

lemma Place.forward_last (n : Nat) (p : Place) :
    (p.forward n).last = ((p.rest.take n).getLast?.map Glyph.char).or p.last := by
  induction n generalizing p with
  | zero => rfl
  | succ n ih =>
    rw [Place.forward]
    cases hrest : p.rest with
    | nil => rfl
    | cons g rest =>
      rw [ih, List.take_succ_cons, List.getLast?_cons, Place.step]
      cases (rest.take n).getLast? <;> rfl

lemma extent_of_getLast_none {raw : List Char} {k : Nat}
    (h : ((Glyph.ofChars raw).take k).getLast? = none) : extent raw k = 0 := by
  rw [extent, List.getLast?_eq_none_iff.mp h]
  rfl

/-- The last of some logical characters is the raw character at which it ends. -/
lemma getLast_ofChars (raw : List Char) (k : Nat) :
    ((Glyph.ofChars raw).take k).getLast?.map Glyph.char = charAt? raw (extent raw k - 1) := by
  induction raw using logical_induction generalizing k with
  | nil => simp [Glyph.ofChars, charAt?, extent]
  | pair rest ih =>
    cases k with
    | zero => simp [extent_zero, charAt?]
    | succ k =>
      have hrest := ih k
      rw [Glyph.ofChars, List.take_succ_cons, List.getLast?_cons, Option.map_some, extent_pair]
      cases hlast : ((Glyph.ofChars rest).take k).getLast? with
      | none => simp [extent_of_getLast_none hlast, charAt?]
      | some g =>
        rw [hlast] at hrest
        have hfeed := charAt?_cons '\r' (charAt?_cons '\n' hrest.symm)
        rw [Option.getD_some, ← hfeed]
        congr 1
        omega
  | single c rest h ih =>
    cases k with
    | zero => simp [extent_zero, charAt?]
    | succ k =>
      have hrest := ih k
      rw [ofChars_single h, List.take_succ_cons, List.getLast?_cons, Option.map_some,
        extent_single h]
      cases hlast : ((Glyph.ofChars rest).take k).getLast? with
      | none => simp [extent_of_getLast_none hlast, charAt?]
      | some g =>
        rw [hlast] at hrest
        rw [Option.getD_some, ← charAt?_cons c hrest.symm]
        congr 1
        omega

lemma forward_ofText_last (text : String) (k : Nat) :
    ((Place.ofText text).forward k).last =
      charAt? text.toList ((Place.ofText text).forward k).pos.offset := by
  rw [forward_ofText_pos, ofIndex_offset, ← getLast_ofChars, Place.forward_last]
  exact Option.or_none

/-! ### Cursors that a session reaches -/

/-- The place and the marks of a cursor can all be walked to from the start of the text. -/
def Cursor.Within (text : String) (c : Cursor) : Prop :=
  ∀ p ∈ c.place :: c.marks, ∃ k, p = (Place.ofText text).forward k

lemma Session.Takes.within {text : String} {c d : Cursor} {s : Session.Step}
    {o : Session.Outcome} (h : Session.Takes c s o d) (hc : c.Within text) : d.Within text := by
  obtain ⟨hplace, hmarks⟩ := List.forall_mem_cons.mp hc
  cases h with
  | reads hpush hpop h =>
    obtain ⟨k, hk⟩ := hplace
    obtain ⟨n, hn⟩ := h.place
    refine List.forall_mem_cons.mpr ⟨⟨k + n, ?_⟩, ?_⟩
    · rw [hn, hk, Place.forward_add]
    · rw [h.marks]
      exact hmarks
  | pushes => exact List.forall_mem_cons.mpr ⟨hplace, hc⟩
  | pops hpop hd hwhere =>
    rw [hd, List.forall_mem_cons] at hmarks
    refine List.forall_mem_cons.mpr ⟨?_, hmarks.2⟩
    obtain hstay | hback := hwhere
    · rw [hstay]
      exact hplace
    · rw [hback]
      exact hmarks.1
  | fails hpop hempty => exact hc

lemma Session.leave_within {text : String} {c : Cursor} (hc : c.Within text)
    (steps : List Session.Step) : (Session.leave c steps).Within text := by
  induction steps generalizing c with
  | nil => exact hc
  | cons s steps ih => exact ih ((Session.perform_takes c s).within hc)

lemma Cursor.ofText_within (text file : String) : (Cursor.ofText text file).Within text :=
  List.forall_mem_cons.mpr ⟨⟨0, rfl⟩, nofun⟩

/-! ### Looks and returns -/

lemma Session.scanned_fst {r r' : Cursor.Scanned Token} (h : r.1 = r'.1) :
    (Session.scanned r).1 = (Session.scanned r').1 := by
  obtain ⟨result, d⟩ := r
  obtain ⟨result', d'⟩ := r'
  obtain rfl : result = result' := h
  cases result <;> rfl

lemma Session.peekToken_outcome (c : Cursor) :
    (Session.perform c .peekToken).1 = (Session.perform c .next).1 :=
  Session.scanned_fst (by rw [Cursor.peekToken_eq])

lemma Session.peekToken_ne_unbalanced (c : Cursor) (fault : Underflow) :
    (Session.perform c .peekToken).1 ≠ .unbalanced fault := by
  rw [Session.perform]
  generalize c.peekToken = r
  obtain ⟨result, d⟩ := r
  cases result <;> simp [Session.scanned]

lemma Session.peekToken_cursor (c : Cursor) :
    (Session.perform c .peekToken).2 = { c with current := c.place.last } := by
  rw [Session.perform, Session.scanned_snd, Cursor.peekToken_eq]

/-- The mark that a look sets is there when it goes back. -/
lemma Cursor.peekToken_restores (c : Cursor) :
    c.push.nextToken.2.restore = .ok c.peekToken.2 := by
  have hmarks : c.push.nextToken.2.marks = c.place :: c.marks := c.push.nextToken_leads.marks
  unfold Cursor.peekToken Cursor.restore
  dsimp only
  rw [hmarks]

/-- Looks leave a cursor that differs in its last character at most. -/
lemma Session.leave_looks {c : Cursor} {looks : List Session.Step}
    (h : ∀ s ∈ looks, s.isLook) : ∃ current, Session.leave c looks = { c with current } := by
  induction looks generalizing c with
  | nil => exact ⟨c.current, rfl⟩
  | cons s looks ih =>
    obtain ⟨hs, hlooks⟩ := List.forall_mem_cons.mp h
    have hstep : ∃ current, (Session.perform c s).2 = { c with current } := by
      cases s with
      | peek n => exact ⟨c.current, rfl⟩
      | peekToken => exact ⟨_, Session.peekToken_cursor c⟩
      | _ => cases hs
    obtain ⟨current, hcurrent⟩ := hstep
    obtain ⟨current', hcurrent'⟩ := ih (c := (Session.perform c s).2) hlooks
    refine ⟨current', ?_⟩
    change Session.leave (Session.perform c s).2 looks = _
    rw [hcurrent', hcurrent]

lemma Session.next_of_meets {c d : Cursor} (h : c.Meets d) :
    (Session.perform c .next).1 = (Session.perform d .next).1 ∧
      (Session.perform c .next).2.pos = (Session.perform d .next).2.pos := by
  refine ⟨Session.scanned_fst h.nextToken.1, ?_⟩
  rw [Session.perform, Session.perform, Session.scanned_snd, Session.scanned_snd]
  exact h.nextToken.2.pos_eq

lemma Session.restore_of_marks {c d : Cursor} (h : c.place :: c.marks <:+ d.marks)
    (hdepth : d.depth = c.depth + 1) : ∃ e, Session.perform d .restore = (.done, e) ∧
      e.pos = c.pos ∧ e.marks = c.marks := by
  have hmarks : c.place :: c.marks = d.marks := h.eq_of_length hdepth.symm
  rw [Session.perform, Cursor.restore, ← hmarks]
  exact ⟨_, rfl, rfl, rfl⟩

/-- In every session, faults included, the depth counts the marks set and not taken back; taking
one back fails exactly if there is none, and then changes nothing; reading tokens or a program
keeps all marks; and a look at a token shows what reading it would, goes back to where it started,
and finds its own mark there, so it never takes back one too many. Hence a mark is returned to from
steps that take back their own marks and no others, and looks make no difference to the token read
after them. -/
theorem session_keeps_marks (text file : String) (steps : List Session.Step) :
    let source := Cursor.ofText text file
    let c := Session.leave source steps
    c.depth + Session.pops source steps = steps.count .push ∧
    (∀ s : Session.Step, s.isPop →
      ((Session.perform c s).1 = .unbalanced ⟨c.file⟩ ↔ c.depth = 0) ∧
      ((Session.perform c s).1 = .done ↔ c.depth ≠ 0) ∧
      (c.depth = 0 → (Session.perform c s).2 = c)) ∧
    (∀ s ∈ [Session.Step.next, .tokens, .parse], (Session.perform c s).2.marks = c.marks) ∧
    ((Session.perform c .peekToken).1 = (Session.perform c .next).1 ∧
      (∀ fault, (Session.perform c .peekToken).1 ≠ .unbalanced fault) ∧
      (Session.perform c .peekToken).2.pos = c.pos ∧
      (Session.perform c .peekToken).2.marks = c.marks ∧
      (Session.perform c .peekToken).2.current = charAt? text.toList c.pos.offset ∧
      c.push.nextToken.2.restore = .ok (Session.perform c .peekToken).2) ∧
    (∀ inner, (∀ r ∈ Session.run c.push inner, c.depth < r.2.depth) →
      (Session.leave c (.push :: inner)).depth = c.depth + 1 →
      ∃ d, Session.perform (Session.leave c (.push :: inner)) .restore = (.done, d) ∧
        d.pos = c.pos ∧ d.marks = c.marks) ∧
    ∀ looks, (∀ s ∈ looks, s.isLook) →
      (Session.perform (Session.leave c looks) .next).1 = (Session.perform c .next).1 ∧
      (Session.perform (Session.leave c looks) .next).2.pos = (Session.perform c .next).2.pos ∧
      (Session.leave c looks).marks = c.marks := by
  intro source c
  have hdepth : c.depth + Session.pops source steps = steps.count .push := by
    have hcount : c.depth + _ = _ := Session.depth_leave source steps
    have hempty : source.depth = 0 := rfl
    omega
  have hwithin : c.Within text := Session.leave_within (Cursor.ofText_within text file) steps
  obtain ⟨k, hk⟩ := hwithin c.place List.mem_cons_self
  refine ⟨hdepth, ?_, ?_, ⟨Session.peekToken_outcome c, Session.peekToken_ne_unbalanced c, ?_⟩,
    ?_, ?_⟩
  · intro s hs
    have hzero : c.depth = 0 ↔ c.marks = [] := List.length_eq_zero_iff
    obtain ⟨hempty, hfails⟩ | ⟨hne, hdone⟩ := Session.pop_cases (c := c) hs
    · simp [hfails, hzero, hempty]
    · simp [hdone, hzero, hne]
  · intro s hs
    simp only [List.mem_cons, List.not_mem_nil, or_false] at hs
    obtain rfl | rfl | rfl := hs <;> exact (Session.perform_takes c _).marks nofun rfl
  · rw [Session.peekToken_cursor]
    refine ⟨rfl, rfl, ?_, ?_⟩
    · change c.place.last = charAt? text.toList c.place.pos.offset
      rw [hk, forward_ofText_last]
    · rw [Cursor.peekToken_restores, Cursor.peekToken_eq]
  · intro inner hinner hend
    have hkept : c.place :: c.marks <:+ (Session.leave c.push inner).marks :=
      Session.suffix_leave (List.suffix_refl _) hinner
    exact Session.restore_of_marks hkept hend
  · intro looks hlooks
    obtain ⟨current, hcurrent⟩ := Session.leave_looks (c := c) hlooks
    have hmeets : (Session.leave c looks).Meets c := by
      rw [hcurrent]
      exact ⟨rfl, rfl⟩
    obtain ⟨houtcome, hpos⟩ := Session.next_of_meets hmeets
    exact ⟨houtcome, hpos, by rw [hcurrent]⟩

end HiToolchain
