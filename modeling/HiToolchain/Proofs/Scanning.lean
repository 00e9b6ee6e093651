import HiToolchain.Scan
import Mathlib.Data.List.TakeWhile
import Mathlib.Tactic.Common

/-!
# What reading does to a cursor

Every read moves a place forward over whole logical characters, so `Place.forward` describes
where it ends. On top of it stand the facts about one token that readers of programs rely on: a
token depends on the file and the place alone, leaves the marks as they are, ends where the
cursor ends, and takes at least one character unless it is the end of the text.
-/

namespace HiToolchain

/-- The place `n` logical characters on, or the end of the text. -/
def Place.forward : Nat → Place → Place
  | 0, p => p
  | n + 1, p =>
    match p.rest with
    | [] => p
    | g :: rest => forward n (p.step g rest)

@[simp] lemma Place.forward_rest (n : Nat) (p : Place) : (p.forward n).rest = p.rest.drop n := by
  induction n generalizing p with
  | zero => rfl
  | succ n ih =>
    rw [Place.forward]
    split
    · next h => rw [h, List.drop_nil]
    · next g rest h => rw [ih, h, List.drop_succ_cons, Place.step]

lemma Place.read_snd (n : Nat) (p : Place) : (p.read n).2 = p.forward n := by
  induction n generalizing p with
  | zero => rfl
  | succ n ih =>
    rw [Place.read, Place.forward]
    cases p.rest with
    | nil => rfl
    | cons g rest => exact ih _

lemma Place.read_fst (n : Nat) (p : Place) :
    (p.read n).1 = (p.rest.map Glyph.char ++ [endMark]).take n := by
  induction n generalizing p with
  | zero => simp [Place.read]
  | succ n ih =>
    rw [Place.read]
    cases p.rest with
    | nil => simp
    | cons g rest =>
      have hstep := ih (p.step g rest)
      simp only [Place.step] at hstep
      simp only [Place.step, hstep, List.map_cons, List.cons_append, List.take_succ_cons]

lemma Place.readWhileFrom_eq (keep : Char → Bool) (p : Place) :
    p.readWhileFrom keep p.rest =
      ((p.rest.takeWhile fun g => keep g.char).map Glyph.char,
        p.forward (p.rest.takeWhile fun g => keep g.char).length) := by
  generalize hrest : p.rest = rest
  induction rest generalizing p with
  | nil =>
    have hp : { p with rest := [] } = p := by rw [← hrest]
    simp [Place.readWhileFrom, Place.forward, hp]
  | cons g rest ih =>
    rw [Place.readWhileFrom, List.takeWhile_cons]
    split
    · have hstep := ih (p.step g rest) rfl
      simp [hstep, Place.forward, hrest]
    · rw [← hrest]
      rfl

lemma Place.readWhile_eq (keep : Char → Bool) (p : Place) :
    p.readWhile keep =
      ((p.rest.takeWhile fun g => keep g.char).map Glyph.char,
        p.forward (p.rest.takeWhile fun g => keep g.char).length) :=
  p.readWhileFrom_eq keep

lemma Place.forward_add (m n : Nat) (p : Place) :
    p.forward (m + n) = (p.forward m).forward n := by
  induction m generalizing p with
  | zero => rw [Nat.zero_add, Place.forward]
  | succ m ih =>
    rw [Nat.succ_add, Place.forward, Place.forward]
    cases hrest : p.rest with
    | nil => cases n <;> simp [Place.forward, hrest]
    | cons g rest => exact ih _

/-! ### Reads of a cursor -/

@[simp] lemma Cursor.read_place (n : Int) (c : Cursor) :
    (c.read n).2.place = c.place.forward n.toNat :=
  c.place.read_snd n.toNat

lemma Cursor.read_fst (n : Int) (c : Cursor) :
    (c.read n).1 =
      String.ofList ((c.place.rest.map Glyph.char ++ [endMark]).take n.toNat) :=
  congrArg String.ofList (c.place.read_fst n.toNat)

@[simp] lemma Cursor.readWhile_place (keep : Char → Bool) (c : Cursor) :
    (c.readWhile keep).2.place =
      c.place.forward (c.place.rest.takeWhile fun g => keep g.char).length :=
  congrArg Prod.snd (c.place.readWhile_eq keep)

lemma Cursor.readWhile_fst (keep : Char → Bool) (c : Cursor) :
    (c.readWhile keep).1 =
      String.ofList ((c.place.rest.takeWhile fun g => keep g.char).map Glyph.char) :=
  congrArg (fun r : List Char × Place => String.ofList r.1) (c.place.readWhile_eq keep)

/-- `d` is reached from `c` by reading: it stands further on in the same text, with the marks
that `c` has. -/
structure Cursor.Leads (c d : Cursor) : Prop where
  file : d.file = c.file
  marks : d.marks = c.marks
  place : ∃ n, d.place = c.place.forward n

lemma Cursor.Leads.refl (c : Cursor) : c.Leads c := ⟨rfl, rfl, 0, rfl⟩

lemma Cursor.Leads.trans {c d e : Cursor} (hcd : c.Leads d) (hde : d.Leads e) : c.Leads e := by
  obtain ⟨m, hm⟩ := hcd.place
  obtain ⟨n, hn⟩ := hde.place
  refine ⟨hde.file.trans hcd.file, hde.marks.trans hcd.marks, m + n, ?_⟩
  rw [hn, hm, Place.forward_add]

lemma Cursor.Leads.length_le {c d : Cursor} (h : c.Leads d) :
    d.place.rest.length ≤ c.place.rest.length := by
  obtain ⟨n, hn⟩ := h.place
  rw [hn, Place.forward_rest, List.length_drop]
  exact Nat.sub_le _ _

lemma Cursor.leads_read (n : Int) (c : Cursor) : c.Leads (c.read n).2 :=
  ⟨rfl, rfl, _, c.read_place n⟩

lemma Cursor.leads_readWhile (keep : Char → Bool) (c : Cursor) : c.Leads (c.readWhile keep).2 :=
  ⟨rfl, rfl, _, c.readWhile_place keep⟩

/-! ### One token -/

lemma Cursor.scanKeyword_leads (kind : TokenKind) (word : String) (c : Cursor) :
    c.Leads (c.scanKeyword kind word).2 := by
  unfold Cursor.scanKeyword
  dsimp only
  split
  · exact c.leads_read _
  · exact c.leads_read _

lemma Cursor.scanString_leads (c : Cursor) : c.Leads c.scanString.2 := by
  have hclosed := ((c.leads_read 1).trans (Cursor.leads_readWhile
    (fun ch => ch != '"' && ch != endMark) _)).trans (Cursor.leads_read 1 _)
  unfold Cursor.scanString
  dsimp only
  split
  · exact hclosed
  · exact hclosed

lemma Cursor.scanNumber_leads (c : Cursor) : c.Leads c.scanNumber.2 :=
  c.leads_readWhile isDigit

lemma Cursor.scanOperator_leads (op : TokenKind) (c : Cursor) :
    c.Leads (c.scanOperator op).2 := by
  unfold Cursor.scanOperator
  dsimp only
  split
  · exact (c.leads_read 1).trans (Cursor.leads_read 1 _)
  · exact c.leads_read 1

lemma Cursor.scanToken_leads (c : Cursor) : c.Leads c.scanToken.2 := by
  unfold Cursor.scanToken
  dsimp only
  split_ifs
  · exact c.scanString_leads
  · exact c.scanKeyword_leads _ _
  · exact c.scanKeyword_leads _ _
  · exact c.scanNumber_leads
  · exact .refl c
  · split
    · exact c.scanOperator_leads _
    · exact .refl c

lemma Cursor.nextToken_leads (c : Cursor) : c.Leads c.nextToken.2 :=
  (c.leads_readWhile isBlank).trans c.skipBlanks.scanToken_leads

/-- Two cursors at one place of one text; the marks and the last character read may differ. -/
def Cursor.Meets (c d : Cursor) : Prop :=
  c.file = d.file ∧ c.place = d.place

/-- Two scans with one outcome that end at one place. -/
def Cursor.SameScan (x y : Cursor.Scanned Token) : Prop :=
  x.1 = y.1 ∧ x.2.Meets y.2

lemma Cursor.Meets.pos_eq {c d : Cursor} (h : c.Meets d) : c.pos = d.pos := by
  rw [Cursor.pos, Cursor.pos, h.2]

lemma Cursor.Meets.lexFault_eq {c d : Cursor} (h : c.Meets d) (cause : LexCause) :
    c.lexFault cause = d.lexFault cause := by
  rw [Cursor.lexFault, Cursor.lexFault, h.pos_eq, h.1]

lemma Cursor.Meets.read {c d : Cursor} (h : c.Meets d) (n : Int) :
    (c.read n).1 = (d.read n).1 ∧ (c.read n).2.Meets (d.read n).2 := by
  refine ⟨?_, h.1, ?_⟩
  · rw [Cursor.read_fst, Cursor.read_fst, h.2]
  · rw [Cursor.read_place, Cursor.read_place, h.2]

lemma Cursor.Meets.readWhile {c d : Cursor} (h : c.Meets d) (keep : Char → Bool) :
    (c.readWhile keep).1 = (d.readWhile keep).1 ∧
      (c.readWhile keep).2.Meets (d.readWhile keep).2 := by
  refine ⟨?_, h.1, ?_⟩
  · rw [Cursor.readWhile_fst, Cursor.readWhile_fst, h.2]
  · rw [Cursor.readWhile_place, Cursor.readWhile_place, h.2]

lemma Cursor.Meets.scanKeyword {c d : Cursor} (h : c.Meets d) (kind : TokenKind)
    (word : String) : Cursor.SameScan (c.scanKeyword kind word) (d.scanKeyword kind word) := by
  obtain ⟨hgot, hend⟩ := h.read word.length
  unfold Cursor.scanKeyword
  dsimp only
  rw [hgot]
  split
  · exact ⟨by rw [h.pos_eq, hend.pos_eq], hend⟩
  · exact ⟨by rw [hend.lexFault_eq], hend⟩

lemma Cursor.Meets.scanString {c d : Cursor} (h : c.Meets d) :
    Cursor.SameScan c.scanString d.scanString := by
  obtain ⟨hvalue, hrun⟩ := (h.read 1).2.readWhile fun ch => ch != '"' && ch != endMark
  obtain ⟨hclosing, hend⟩ := hrun.read 1
  unfold Cursor.scanString
  dsimp only
  rw [hclosing, hvalue]
  split
  · exact ⟨by rw [h.pos_eq, hend.pos_eq], hend⟩
  · exact ⟨by rw [hend.lexFault_eq], hend⟩

lemma Cursor.Meets.scanNumber {c d : Cursor} (h : c.Meets d) :
    Cursor.SameScan c.scanNumber d.scanNumber := by
  obtain ⟨hdigits, hend⟩ := h.readWhile isDigit
  unfold Cursor.scanNumber
  exact ⟨by dsimp only; rw [hdigits, h.pos_eq, hend.pos_eq], hend⟩

lemma Cursor.Meets.scanOperator {c d : Cursor} (h : c.Meets d) (op : TokenKind) :
    Cursor.SameScan (c.scanOperator op) (d.scanOperator op) := by
  obtain ⟨-, hone⟩ := h.read 1
  obtain ⟨-, htwo⟩ := hone.read 1
  unfold Cursor.scanOperator
  dsimp only
  rw [hone.2]
  split
  · exact ⟨by rw [h.pos_eq, htwo.pos_eq], htwo⟩
  · exact ⟨by rw [h.pos_eq, hone.pos_eq], hone⟩

lemma Cursor.Meets.scanToken {c d : Cursor} (h : c.Meets d) :
    Cursor.SameScan c.scanToken d.scanToken := by
  unfold Cursor.scanToken
  dsimp only
  rw [h.2]
  split_ifs
  · exact h.scanString
  · exact h.scanKeyword _ _
  · exact h.scanKeyword _ _
  · exact h.scanNumber
  · exact ⟨by rw [h.pos_eq], h⟩
  · split
    · exact h.scanOperator _
    · exact ⟨by rw [h.lexFault_eq], h⟩

/-- A token depends on the file and the place alone, and so does the place after it. -/
lemma Cursor.Meets.nextToken {c d : Cursor} (h : c.Meets d) :
    Cursor.SameScan c.nextToken d.nextToken :=
  (h.readWhile isBlank).2.scanToken

lemma Cursor.peekToken_eq (c : Cursor) :
    c.peekToken = (c.nextToken.1, { c with current := c.place.last }) := by
  have hpush : c.push.Meets c := ⟨rfl, rfl⟩
  have hmarks : c.push.nextToken.2.marks = c.place :: c.marks := c.push.nextToken_leads.marks
  have hfile : c.push.nextToken.2.file = c.file := c.push.nextToken_leads.file
  unfold Cursor.peekToken Cursor.restore
  dsimp only
  rw [hmarks]
  simp only [hpush.nextToken.1, hfile]

/-- The value that goes with the kind of a token: keywords repeat themselves, a number has
digits, a string has what may stand between its quotes, and every other token has no value. -/
def Token.Regular (t : Token) : Prop :=
  match t.kind with
  | .hi => t.value = "hi"
  | .print => t.value = "print"
  | .number => t.value.toList ≠ [] ∧ ∀ ch ∈ t.value.toList, isDigit ch
  | .string => ∀ ch ∈ t.value.toList, ch ≠ '"' ∧ ch ≠ endMark
  | .other _ => False
  | _ => t.value = ""

/-- What holds of a token that was read at `c` and left the cursor at `d`. -/
structure Cursor.Reads (c : Cursor) (t : Token) (d : Cursor) : Prop where
  leads : c.Leads d
  stop : t.span.stop = d.pos
  regular : t.Regular
  shorter : t.kind ≠ .eof → d.place.rest.length < c.place.rest.length

lemma Place.rest_ne_nil {p : Place} (h : p.next ≠ endMark) : p.rest ≠ [] := by
  intro hrest
  rw [Place.next, hrest] at h
  exact h rfl

lemma Place.forward_shorter {p : Place} {n : Nat} (hn : 0 < n) (hrest : p.rest ≠ []) :
    (p.forward n).rest.length < p.rest.length := by
  have hlength := List.length_pos_iff.mpr hrest
  rw [Place.forward_rest, List.length_drop]
  omega

lemma Cursor.scanKeyword_reads {c d : Cursor} {kind : TokenKind} {word : String} {t : Token}
    (h : c.scanKeyword kind word = (.ok t, d)) (hword : 0 < word.length)
    (hregular : ∀ span, Token.Regular ⟨kind, word, span⟩) (hrest : c.place.rest ≠ []) :
    c.Reads t d := by
  have hleads := c.scanKeyword_leads kind word
  rw [h] at hleads
  unfold Cursor.scanKeyword at h
  dsimp only at h
  split at h
  · obtain ⟨⟨rfl⟩, rfl⟩ := Prod.mk.inj h
    refine ⟨hleads, rfl, hregular _, fun _ => ?_⟩
    rw [Cursor.read_place]
    exact Place.forward_shorter (by omega) hrest
  · cases h

lemma Cursor.scanString_reads {c d : Cursor} {t : Token} (h : c.scanString = (.ok t, d))
    (hrest : c.place.rest ≠ []) : c.Reads t d := by
  have hleads := c.scanString_leads
  rw [h] at hleads
  unfold Cursor.scanString at h
  dsimp only at h
  split at h
  · obtain ⟨⟨rfl⟩, rfl⟩ := Prod.mk.inj h
    refine ⟨hleads, rfl, ?_, fun _ => ?_⟩
    · intro ch hch
      rw [Cursor.readWhile_fst, String.toList_ofList] at hch
      obtain ⟨g, hg, rfl⟩ := List.mem_map.mp hch
      simpa using List.mem_takeWhile_imp hg
    · have hopened : (c.read 1).2.place.rest.length < c.place.rest.length := by
        rw [Cursor.read_place]
        exact Place.forward_shorter (by decide) hrest
      exact Nat.lt_of_le_of_lt
        (((Cursor.leads_readWhile _ _).trans (Cursor.leads_read 1 _)).length_le) hopened
  · cases h

lemma Cursor.scanNumber_reads {c d : Cursor} {t : Token} (h : c.scanNumber = (.ok t, d))
    (hdigit : isDigit c.place.next) (hrest : c.place.rest ≠ []) : c.Reads t d := by
  have hleads := c.scanNumber_leads
  rw [h] at hleads
  unfold Cursor.scanNumber at h
  dsimp only at h
  obtain ⟨⟨rfl⟩, rfl⟩ := Prod.mk.inj h
  obtain ⟨g, rest, hcons⟩ := List.exists_cons_of_ne_nil hrest
  simp only [Place.next, hcons] at hdigit
  refine ⟨hleads, rfl, ⟨?_, ?_⟩, fun _ => ?_⟩
  · simp [Cursor.readWhile_fst, hcons, hdigit]
  · intro ch hch
    rw [Cursor.readWhile_fst, String.toList_ofList] at hch
    obtain ⟨g, hg, rfl⟩ := List.mem_map.mp hch
    simpa using List.mem_takeWhile_imp hg
  · rw [Cursor.readWhile_place]
    exact Place.forward_shorter (by simp [hcons, hdigit]) hrest

lemma Cursor.scanOperator_reads {c d : Cursor} {op : TokenKind} {t : Token}
    (h : c.scanOperator op = (.ok t, d)) (hop : ∀ span, Token.Regular ⟨op, "", span⟩)
    (hrest : c.place.rest ≠ []) : c.Reads t d := by
  have hleads := c.scanOperator_leads op
  rw [h] at hleads
  have hone : (c.read 1).2.place.rest.length < c.place.rest.length := by
    rw [Cursor.read_place]
    exact Place.forward_shorter (by decide) hrest
  unfold Cursor.scanOperator at h
  dsimp only at h
  split at h
  · obtain ⟨⟨rfl⟩, rfl⟩ := Prod.mk.inj h
    exact ⟨hleads, rfl, rfl, fun _ => Nat.lt_of_le_of_lt (Cursor.leads_read 1 _).length_le hone⟩
  · obtain ⟨⟨rfl⟩, rfl⟩ := Prod.mk.inj h
    exact ⟨hleads, rfl, hop _, fun _ => hone⟩

lemma operator?_regular {ch : Char} {op : TokenKind} (h : operator? ch = some op) (span : Span) :
    Token.Regular ⟨op, "", span⟩ := by
  unfold operator? at h
  split at h <;> cases h <;> rfl

lemma Cursor.scanToken_reads {c d : Cursor} {t : Token} (h : c.scanToken = (.ok t, d)) :
    c.Reads t d := by
  unfold Cursor.scanToken at h
  dsimp only at h
  by_cases hend : c.place.next = endMark
  · simp only [hend] at h
    obtain ⟨⟨rfl⟩, rfl⟩ := Prod.mk.inj h
    exact ⟨.refl c, rfl, rfl, fun hkind => (hkind rfl).elim⟩
  · have hrest := Place.rest_ne_nil hend
    split_ifs at h with hquote hhi hprint hdigit hmark
    · exact Cursor.scanString_reads h hrest
    · exact Cursor.scanKeyword_reads h (by decide) (fun _ => rfl) hrest
    · exact Cursor.scanKeyword_reads h (by decide) (fun _ => rfl) hrest
    · exact Cursor.scanNumber_reads h hdigit hrest
    · exact (hend (by simpa using hmark)).elim
    · split at h
      · next op hop => exact Cursor.scanOperator_reads h (operator?_regular hop) hrest
      · cases h

lemma Cursor.nextToken_reads {c d : Cursor} {t : Token} (h : c.nextToken = (.ok t, d)) :
    c.Reads t d := by
  have hskip : c.Leads c.skipBlanks := c.leads_readWhile isBlank
  obtain ⟨hleads, hstop, hregular, hshorter⟩ := Cursor.scanToken_reads h
  exact ⟨hskip.trans hleads, hstop, hregular,
    fun hkind => Nat.lt_of_lt_of_le (hshorter hkind) hskip.length_le⟩

/-! ### All tokens -/

lemma Cursor.tokensWithin_of_error {c : Cursor} {fault : LexFault}
    (h : c.nextToken.1 = .error fault) (fuel : Nat) :
    (c.tokensWithin (fuel + 1)).1 = ([], some fault) := by
  have hpair : c.nextToken = (_, c.nextToken.2) := Prod.ext h rfl
  rw [Cursor.tokensWithin, hpair]

lemma Cursor.tokensWithin_of_eof {c : Cursor} {t : Token} (h : c.nextToken.1 = .ok t)
    (hkind : t.kind = .eof) (fuel : Nat) : (c.tokensWithin (fuel + 1)).1 = ([t], none) := by
  have hpair : c.nextToken = (_, c.nextToken.2) := Prod.ext h rfl
  rw [Cursor.tokensWithin, hpair]
  simp only [if_pos hkind]

lemma Cursor.tokensWithin_of_token {c : Cursor} {t : Token} (h : c.nextToken.1 = .ok t)
    (hkind : t.kind ≠ .eof) (fuel : Nat) :
    (c.tokensWithin (fuel + 1)).1 =
      (t :: (c.nextToken.2.tokensWithin fuel).1.1, (c.nextToken.2.tokensWithin fuel).1.2) := by
  have hpair : c.nextToken = (_, c.nextToken.2) := Prod.ext h rfl
  rw [Cursor.tokensWithin, hpair]
  simp only [if_neg hkind]

lemma Cursor.Meets.tokensWithin {c d : Cursor} (h : c.Meets d) (fuel : Nat) :
    (c.tokensWithin fuel).1 = (d.tokensWithin fuel).1 := by
  induction fuel generalizing c d with
  | zero => rfl
  | succ fuel ih =>
    obtain ⟨hresult, hend⟩ := h.nextToken
    cases hd : d.nextToken.1 with
    | error fault =>
      rw [Cursor.tokensWithin_of_error hd, Cursor.tokensWithin_of_error (hresult.trans hd)]
    | ok t =>
      by_cases hkind : t.kind = .eof
      · rw [Cursor.tokensWithin_of_eof hd hkind,
          Cursor.tokensWithin_of_eof (hresult.trans hd) hkind]
      · rw [Cursor.tokensWithin_of_token hd hkind,
          Cursor.tokensWithin_of_token (hresult.trans hd) hkind, ih hend]

/-- Any fuel above the number of characters left yields the same tokens. -/
lemma Cursor.tokensWithin_enough {c : Cursor} {m n : Nat} (hm : c.place.rest.length < m)
    (hn : c.place.rest.length < n) : (c.tokensWithin m).1 = (c.tokensWithin n).1 := by
  induction m generalizing c n with
  | zero => omega
  | succ m ih =>
    obtain ⟨n, rfl⟩ := Nat.exists_eq_add_one_of_ne_zero (Nat.ne_of_gt (Nat.zero_lt_of_lt hn))
    cases hc : c.nextToken.1 with
    | error fault => rw [Cursor.tokensWithin_of_error hc, Cursor.tokensWithin_of_error hc]
    | ok t =>
      by_cases hkind : t.kind = .eof
      · rw [Cursor.tokensWithin_of_eof hc hkind, Cursor.tokensWithin_of_eof hc hkind]
      · have hreads : c.Reads t c.nextToken.2 := Cursor.nextToken_reads (Prod.ext hc rfl)
        have hshorter := hreads.shorter hkind
        rw [Cursor.tokensWithin_of_token hc hkind, Cursor.tokensWithin_of_token hc hkind,
          ih (n := n) (by omega) (by omega)]

lemma Cursor.Meets.tokens {c d : Cursor} (h : c.Meets d) : c.tokens.1 = d.tokens.1 := by
  rw [Cursor.tokens, Cursor.tokens, h.2]
  exact h.tokensWithin _

lemma Cursor.tokens_of_error {c : Cursor} {fault : LexFault} (h : c.nextToken.1 = .error fault) :
    c.tokens.1 = ([], some fault) :=
  Cursor.tokensWithin_of_error h _

lemma Cursor.tokens_of_eof {c : Cursor} {t : Token} (h : c.nextToken.1 = .ok t)
    (hkind : t.kind = .eof) : c.tokens.1 = ([t], none) :=
  Cursor.tokensWithin_of_eof h hkind _

lemma Cursor.tokens_of_token {c : Cursor} {t : Token} (h : c.nextToken.1 = .ok t)
    (hkind : t.kind ≠ .eof) :
    c.tokens.1 = (t :: c.nextToken.2.tokens.1.1, c.nextToken.2.tokens.1.2) := by
  have hreads : c.Reads t c.nextToken.2 := Cursor.nextToken_reads (Prod.ext h rfl)
  have hshorter := hreads.shorter hkind
  rw [Cursor.tokens, Cursor.tokensWithin_of_token h hkind, Cursor.tokens,
    Cursor.tokensWithin_enough (n := c.nextToken.2.place.rest.length + 1) hshorter (by omega)]

lemma Cursor.nextToken_of_tokens_nil {c : Cursor} {fault : Option LexFault}
    (h : c.tokens.1 = ([], fault)) : ∃ f, fault = some f ∧ c.nextToken.1 = .error f := by
  cases hc : c.nextToken.1 with
  | error f =>
    rw [Cursor.tokens_of_error hc] at h
    exact ⟨f, (Prod.mk.inj h).2.symm, rfl⟩
  | ok t =>
    by_cases hkind : t.kind = .eof
    · rw [Cursor.tokens_of_eof hc hkind] at h
      cases h
    · rw [Cursor.tokens_of_token hc hkind] at h
      cases h

lemma Cursor.nextToken_of_tokens_cons {c : Cursor} {t : Token} {ts : List Token}
    {fault : Option LexFault} (h : c.tokens.1 = (t :: ts, fault)) :
    c.nextToken.1 = .ok t ∧
      if t.kind = .eof then ts = [] ∧ fault = none else c.nextToken.2.tokens.1 = (ts, fault) := by
  cases hc : c.nextToken.1 with
  | error f =>
    rw [Cursor.tokens_of_error hc] at h
    cases h
  | ok u =>
    by_cases hkind : u.kind = .eof
    · rw [Cursor.tokens_of_eof hc hkind] at h
      cases h
      rw [if_pos hkind]
      exact ⟨rfl, rfl, rfl⟩
    · rw [Cursor.tokens_of_token hc hkind] at h
      cases h
      rw [if_neg hkind]
      exact ⟨rfl, rfl⟩

/-- The tokens of a text end with the end of the text, which is the only one of its kind, unless
a fault ends them. -/
def EndsProperly (ts : List Token) : Option LexFault → Prop
  | none => ∃ before last, ts = before ++ [last] ∧ last.kind = .eof ∧ ∀ t ∈ before, t.kind ≠ .eof
  | some _ => ∀ t ∈ ts, t.kind ≠ .eof

lemma Cursor.tokens_endsProperly {c : Cursor} {ts : List Token} {fault : Option LexFault}
    (h : c.tokens.1 = (ts, fault)) : EndsProperly ts fault := by
  induction ts generalizing c with
  | nil =>
    obtain ⟨f, rfl, -⟩ := Cursor.nextToken_of_tokens_nil h
    exact fun t ht => nomatch ht
  | cons t ts ih =>
    obtain ⟨-, hnext⟩ := Cursor.nextToken_of_tokens_cons h
    split at hnext
    · next hkind =>
      obtain ⟨rfl, rfl⟩ := hnext
      exact ⟨[], t, rfl, hkind, fun u hu => nomatch hu⟩
    · next hkind =>
      have hrest := ih hnext
      cases fault with
      | none =>
        obtain ⟨before, last, rfl, hlast, hbefore⟩ := hrest
        refine ⟨t :: before, last, rfl, hlast, ?_⟩
        rw [List.forall_mem_cons]
        exact ⟨hkind, hbefore⟩
      | some f =>
        unfold EndsProperly at hrest ⊢
        rw [List.forall_mem_cons]
        exact ⟨hkind, hrest⟩

lemma Cursor.tokens_regular {c : Cursor} {ts : List Token} {fault : Option LexFault}
    (h : c.tokens.1 = (ts, fault)) : ∀ t ∈ ts, t.Regular := by
  induction ts generalizing c with
  | nil => exact fun t ht => nomatch ht
  | cons t ts ih =>
    obtain ⟨hfirst, hnext⟩ := Cursor.nextToken_of_tokens_cons h
    have hreads : c.Reads t c.nextToken.2 := Cursor.nextToken_reads (Prod.ext hfirst rfl)
    rw [List.forall_mem_cons]
    refine ⟨hreads.regular, ?_⟩
    split at hnext
    · rw [hnext.1]
      exact fun u hu => nomatch hu
    · exact ih hnext

end HiToolchain
