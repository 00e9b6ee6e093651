import HiToolchain.Proofs.BlockScalars
import HiToolchain.Proofs.FlowScalars
import HiToolchain.Yaml.Tokens

/-!
# The tokens of a mapping of strings

The text of a mapping of strings is divided into the tokens of its keys and values. A scan passes
from the start of one field to the start of the next in a fixed number of steps, and hands out the
tokens of that field on the way.
-/

namespace HiToolchain.Yaml

/-! ### Keys -/

/-- The letters that keys are made of. -/
def isKeyChar (c : Char) : Bool :=
  let n := c.toNat
  (0x41 ≤ n && n ≤ 0x5a) || (0x61 ≤ n && n ≤ 0x7a)

/-- Letters are none of the characters that mean something else. -/
lemma ne_of_isKeyChar {c d : Char} (h : isKeyChar c) (hd : isKeyChar d = false) : c ≠ d := by
  rintro rfl
  rw [hd] at h
  cases h

lemma isSolid_of_isKeyChar {c : Char} (h : isKeyChar c) : isSolid c := by
  have hfeed : c ≠ '\n' := ne_of_isKeyChar h rfl
  have hreturn : c ≠ '\r' := ne_of_isKeyChar h rfl
  have hspace : c ≠ ' ' := ne_of_isKeyChar h rfl
  have htab : c ≠ '\t' := ne_of_isKeyChar h rfl
  simp only [isKeyChar, Bool.or_eq_true, Bool.and_eq_true, decide_eq_true_eq] at h
  simp only [isSolid, isBlank, isBreak, hfeed, hreturn, hspace, htab, Bool.not_eq_true',
    Bool.or_eq_false_iff, beq_eq_false_iff_ne, ne_eq, not_false_eq_true, true_and]
  omega

/-- Keys that are words of letters and short enough. -/
structure Key (key : List Char) : Prop where
  nonempty : key ≠ []
  letters : ∀ c ∈ key, isKeyChar c
  short : key.length ≤ keyLimit

lemma Plain.wordLength_key {key : List Char} (h : ∀ c ∈ key, isKeyChar c) (text : List Char) :
    wordLength false (key ++ ':' :: ' ' :: text) = key.length := by
  induction key with
  | nil => rfl
  | cons c key ih =>
    obtain ⟨hc, hkey⟩ := List.forall_mem_cons.mp h
    rw [List.cons_append, wordLength_cons (isSolid_of_isKeyChar hc), ih hkey, List.length_cons]
    exact fun hcolon => (ne_of_isKeyChar hc rfl hcolon).elim

lemma Plain.read_key {key : List Char} (h : Key key) (least : Nat) (m : Mark) (text : List Char) :
    Plain.read false least ⟨m, key ++ ':' :: ' ' :: text⟩ =
      .ok ⟨key, false, ⟨m.forward key.length, ':' :: ' ' :: text⟩⟩ := by
  obtain ⟨c, more, rfl⟩ := List.exists_cons_of_ne_nil h.nonempty
  have hc := h.letters c List.mem_cons_self
  have hlength := wordLength_key h.letters text
  have hstart : (⟨m, c :: more ++ ':' :: ' ' :: text⟩ : Input).atDocumentIndicator = false ∧
      (⟨m, c :: more ++ ':' :: ' ' :: text⟩ : Input).startsWith '#' = false :=
    ⟨Input.atDocumentIndicator_of_head ⟨ne_of_isKeyChar hc rfl, ne_of_isKeyChar hc rfl⟩,
      by simpa [Input.startsWith] using ne_of_isKeyChar hc rfl⟩
  rw [Plain.read, readWords_succ hstart (by rw [hlength]; simp), inWord]
  simp only [hlength, List.take_left, Input.skip, List.drop_left]
  rfl

lemma allowsLiteral_of_chooseStyle {s : String} (h : chooseStyle s = .literal) :
    allowsLiteral s.toList := by
  unfold chooseStyle at h
  dsimp only at h
  split_ifs at h with hfeed hliteral
  exact hliteral

/-! ### Steps of a scan -/

namespace Scan

/-- In `n` steps a scan hands out tokens of these kinds and comes to another state. -/
def Hands (n : Nat) (s : Scan) (kinds : List TokenKind) (s' : Scan) : Prop :=
  ∃ tokens : List Token, tokens.map (·.kind) = kinds ∧
    ∀ fuel, run (fuel + n) s = (tokens ++ (run fuel s').1, (run fuel s').2)

lemma run_succ (fuel : Nat) (s : Scan) : run (fuel + 1) s = match s.waits with
    | .error fault => ([], some fault)
    | .ok (false, s) =>
      let (tokens, fault) := run fuel { s with queue := s.queue.drop 1, taken := s.taken + 1 }
      (s.queue.take 1 ++ tokens, fault)
    | .ok (true, s) =>
      if s.ended then ([], none)
      else match s.fetch with
        | .error fault => ([], some fault)
        | .ok s => run fuel s := by
  exact Eq.refl _

lemma Hands.refl (s : Scan) : Hands 0 s [] s := ⟨[], rfl, fun _ => rfl⟩

lemma Hands.trans {n n' : Nat} {s s' s'' : Scan} {kinds kinds' : List TokenKind}
    (h : Hands n s kinds s') (h' : Hands n' s' kinds' s'') :
    Hands (n + n') s (kinds ++ kinds') s'' := by
  obtain ⟨tokens, hkinds, hrun⟩ := h
  obtain ⟨tokens', hkinds', hrun'⟩ := h'
  refine ⟨tokens ++ tokens', by rw [List.map_append, hkinds, hkinds'], fun fuel => ?_⟩
  rw [Nat.add_comm n, ← Nat.add_assoc, hrun, hrun', List.append_assoc]

lemma Hands.fetch {s s' : Scan} (hwaits : s.waits = .ok (true, s)) (hended : s.ended = false)
    (h : s.fetch = .ok s') : Hands 1 s [] s' := by
  refine ⟨[], rfl, fun fuel => ?_⟩
  simp only [run_succ, hwaits, hended, Bool.false_eq_true, if_false, h, List.nil_append]

/-- Where no key is possible, the tokens in the queue are handed out. -/
lemma Hands.queue (i : Input) (indent : Int) (outer : List Int) (allowed : Bool)
    (queue : List Token) (taken : Nat) (ended : Bool) :
    Hands queue.length ⟨i, indent, outer, allowed, [none], queue, taken, ended⟩
      (queue.map (·.kind))
      ⟨i, indent, outer, allowed, [none], [], taken + queue.length, ended⟩ := by
  induction queue generalizing taken with
  | nil => exact .refl _
  | cons t queue ih =>
    have hstep : Hands 1 ⟨i, indent, outer, allowed, [none], t :: queue, taken, ended⟩ [t.kind]
        ⟨i, indent, outer, allowed, [none], queue, taken + 1, ended⟩ := ⟨[t], rfl, fun _ => rfl⟩
    have hrest := hstep.trans (ih (taken + 1))
    rw [Nat.add_comm 1, Nat.add_assoc, Nat.add_comm 1] at hrest
    exact hrest

/-- A text that starts a token where it stands, or is at its end. -/
def AtToken (text : List Char) : Prop :=
  ∀ c ∈ text.head?, isSolid c ∧ c ≠ '#' ∧ c ≠ byteOrderMark

lemma atToken_cons {c : Char} (h : isSolid c ∧ c ≠ '#' ∧ c ≠ byteOrderMark) (text : List Char) :
    AtToken (c :: text) := by
  rintro _ ⟨rfl⟩
  exact h

lemma skipToToken_spaces {s : Scan} {m : Mark} {text : List Char} (n fuel : Nat)
    (hs : s.input = ⟨m, List.replicate n ' ' ++ text⟩) (htext : AtToken text) :
    skipToToken (fuel + 1) s = { s with input := ⟨m.forward n, text⟩ } := by
  have hmark : s.input.startsWith byteOrderMark = false := by
    rw [hs, Input.startsWith, beq_eq_false_iff_ne]
    cases n with
    | zero => exact fun h => (htext _ h).2.2 rfl
    | succ n => simp [List.replicate_succ, byteOrderMark]
  have hwhile : ∀ tabs, s.input.skipWhile (fun c => c == ' ' || (tabs && c == '\t')) =
      ⟨m.forward n, text⟩ := by
    intro tabs
    have hspaces : ∀ c ∈ List.replicate n ' ', (c == ' ' || (tabs && c == '\t')) = true := by
      intro c hc
      rw [List.eq_of_mem_replicate hc]
      rfl
    have hstop : ∀ c ∈ text.head?, (c == ' ' || (tabs && c == '\t')) = false := by
      intro c hc
      have hblank := (isSolid_iff.mp (htext c hc).1).1
      simp only [isBlank, Bool.or_eq_false_iff] at hblank
      simp [hblank]
    rw [hs, Input.skipWhile, Input.readWhile, List.takeWhile_append_of_pos hspaces,
      List.dropWhile_append_of_pos hspaces]
    cases text with
    | nil => simp
    | cons c text => simp [hstop c rfl]
  have hcomment : (⟨m.forward n, text⟩ : Input).skipComment = ⟨m.forward n, text⟩ := by
    rw [Input.skipComment, if_neg]
    rw [Input.startsWith, beq_iff_eq]
    exact fun h => (htext _ h).2.1 rfl
  have hbreak : text.head?.any isBreak = false := by
    cases text with
    | nil => rfl
    | cons c text => exact (isSolid_iff.mp (htext c rfl).1).2
  rw [skipToToken]
  simp only [hmark, Bool.and_false, Bool.false_eq_true, if_false, hwhile, hcomment, hbreak]

lemma skipToToken_lineEnd {s : Scan} {m : Mark} {text : List Char} (fuel : Nat)
    (hs : s.input = ⟨m, '\n' :: text⟩) (hflow : s.inFlow = false) (htext : AtToken text) :
    skipToToken (fuel + 2) s =
      { s with input := ⟨m.nextLine 1, text⟩, keyAllowed := true } := by
  have hmark : (⟨m, '\n' :: text⟩ : Input).startsWith byteOrderMark = false := rfl
  have hwhile : ∀ tabs, (⟨m, '\n' :: text⟩ : Input).skipWhile
      (fun c => c == ' ' || (tabs && c == '\t')) = ⟨m, '\n' :: text⟩ := by
    intro tabs
    cases tabs <;> rfl
  have hstep : skipToToken (fuel + 2) s =
      skipToToken (fuel + 1) { s with input := ⟨m.nextLine 1, text⟩, keyAllowed := true } := by
    rw [skipToToken]
    simp only [hs, hflow, hmark, Bool.and_false, Bool.false_eq_true, if_false, hwhile,
      Bool.not_false, Bool.or_true]
    rfl
  rw [hstep, skipToToken_spaces 0 fuel rfl htext]
  rfl

/-! ### Fetching -/

/-- Scans outside of brackets, at a place that no block collection is deeper than. -/
structure Level (s : Scan) : Prop where
  keys : s.keys.length = 1
  indent : s.indent ≤ s.input.column

lemma Level.unindent {s : Scan} (h : Level s) : s.unindent s.input.column = s := by
  have hflow : s.inFlow = false := by simp [inFlow, h.keys]
  have hindent := h.indent
  rw [Scan.unindent, if_neg (by simp [hflow])]
  cases hs : s.outer with
  | nil => rfl
  | cons outer rest =>
    rw [closeBlocks, if_neg]
    omega

/-- A plain scalar may start with the character. -/
def OpensPlain (c : Char) (text : List Char) : Prop :=
  isSolid c ∧ isIndicator c = false ∧ (c = '-' ∨ c = '?' ∨ c = ':' → isBlankOrEnd text = false)

lemma startsPlain_of_opens {c : Char} {text : List Char} (h : OpensPlain c text) :
    startsPlain false c text := by
  obtain ⟨hsolid, hindicator, htext⟩ := h
  have hperm : List.Perm ",[]\x7b\x7d#&*!|>'\"%@`".toList "#,[]\x7b\x7d&*!|>'\"%@`".toList := by
    decide
  have hlist : ",[]\x7b\x7d#&*!|>'\"%@`".toList.contains c = false := by
    rw [← Bool.not_eq_true, List.contains_iff_mem, hperm.mem_iff, ← List.contains_iff_mem,
      Bool.not_eq_true]
    exact hindicator
  have hgap : (isBlank c || isBreak c) = false := by simpa [isSolid] using hsolid
  unfold startsPlain
  split
  · next hdash =>
    have hnext := htext (.inl (by simpa using hdash))
    cases text with
    | nil => rfl
    | cons d text =>
      rw [isBlankOrEnd, Bool.or_eq_false_iff] at hnext
      simp [hnext.1]
  · split
    · next hsign =>
      have hnext := htext (.inr (by simpa using hsign))
      simp [hnext]
    · rw [hgap, hlist]
      rfl

lemma fetch_plain {s s' : Scan} (hskip : skipToToken (s.input.rest.length + 1) s = s')
    (hlevel : Level s') {c : Char} {text : List Char} (hinput : s'.input.rest = c :: text)
    (hopens : OpensPlain c text) (hmarker : s'.input.atDocumentIndicator = false) :
    s.fetch = s'.plainScalar := by
  have hflow : s'.inFlow = false := by simp [inFlow, hlevel.keys]
  have hstarts := startsPlain_of_opens hopens
  obtain ⟨-, hindicator, htext⟩ := hopens
  have hne : ∀ d, isIndicator d → (c == d) = false := by
    intro d hd
    rw [beq_eq_false_iff_ne]
    rintro rfl
    rw [hindicator] at hd
    cases hd
  have hsign : ∀ d, d = '-' ∨ d = '?' ∨ d = ':' → (c == d && isBlankOrEnd text) = false := by
    intro d hd
    by_cases hc : c = d
    · rw [htext (hc ▸ hd), Bool.and_false]
    · simp [hc]
  rw [Input.atDocumentIndicator, Bool.or_eq_false_iff] at hmarker
  unfold fetch
  simp only [hskip, hlevel.unindent, hinput, hmarker, hflow, Bool.false_or, hne '%' rfl,
    hne '[' rfl, hne '\x7b' rfl, hne ']' rfl, hne '\x7d' rfl, hne ',' rfl, hne '*' rfl,
    hne '&' rfl, hne '!' rfl, hne '|' rfl, hne '>' rfl, hne '\'' rfl, hne '"' rfl,
    hsign '-' (by simp), hsign '?' (by simp), hsign ':' (by simp), hstarts, Bool.and_false,
    Bool.false_and, Bool.false_eq_true, if_false,
    if_true]

lemma saveKey_first (i : Input) (indent : Int) (outer : List Int) (taken : Nat) :
    saveKey ⟨i, indent, outer, true, [none], [], taken, false⟩ =
      .ok ⟨i, indent, outer, true, [some ⟨indent == i.mark.column, taken, i.mark⟩], [], taken,
        false⟩ := by
  rfl

/-- A scan between a key and its colon. -/
def afterKey (m : Mark) (n : Nat) (indent : Int) (outer : List Int) (t : Token) (taken : Nat)
    (text : List Char) : Scan :=
  ⟨⟨m.forward n, text⟩, indent, outer, false, [some ⟨indent == 0, taken, m⟩], [t], taken, false⟩

lemma fetch_key {s : Scan} {m : Mark} {key text : List Char} {indent : Int} {outer : List Int}
    {taken : Nat} (hkey : Key key) (hm : m.column = 0) (hindent : indent ≤ 0)
    (hskip : skipToToken (s.input.rest.length + 1) s =
      ⟨⟨m, key ++ ':' :: ' ' :: text⟩, indent, outer, true, [none], [], taken, false⟩) :
    s.fetch = .ok (afterKey m key.length indent outer ⟨.scalar (String.ofList key) true, m.line⟩
      taken (':' :: ' ' :: text)) := by
  obtain ⟨c, more, rfl⟩ := List.exists_cons_of_ne_nil hkey.nonempty
  have hc := hkey.letters c List.mem_cons_self
  have hindicator : isIndicator c = false := by
    rw [← Bool.not_eq_true]
    intro h
    have hmem : c ∈ "#,[]\x7b\x7d&*!|>'\"%@`".toList := List.contains_iff_mem.mp h
    have hnone : "#,[]\x7b\x7d&*!|>'\"%@`".toList.all (!isKeyChar ·) := by decide
    have hsign : isKeyChar c = false := by simpa using List.all_eq_true.mp hnone c hmem
    exact ne_of_isKeyChar hc hsign rfl
  have hopens : OpensPlain c (more ++ ':' :: ' ' :: text) := by
    refine ⟨isSolid_of_isKeyChar hc, hindicator, ?_⟩
    rintro (h | h | h)
    all_goals exact (ne_of_isKeyChar hc rfl h).elim
  have hmarker : (⟨m, c :: (more ++ ':' :: ' ' :: text)⟩ : Input).atDocumentIndicator = false :=
    Input.atDocumentIndicator_of_head ⟨ne_of_isKeyChar hc rfl, ne_of_isKeyChar hc rfl⟩
  have hlevel : Level ⟨⟨m, c :: more ++ ':' :: ' ' :: text⟩, indent, outer, true, [none], [], taken,
      false⟩ := ⟨rfl, by simpa [Input.column, hm] using hindent⟩
  rw [fetch_plain hskip hlevel rfl hopens hmarker, plainScalar, saveKey_first, ok_bind]
  have hflow : (⟨⟨m, c :: more ++ ':' :: ' ' :: text⟩, indent, outer, true,
    [some ⟨indent == m.column, taken, m⟩], [], taken, false⟩ : Scan).inFlow = false := rfl
  rw [hflow, Plain.read_key hkey, ok_bind, hm]
  rfl

/-- The signs that fields have besides keys and plain values. -/
lemma fetch_sign {s s' : Scan} (hskip : skipToToken (s.input.rest.length + 1) s = s')
    (hlevel : Level s') {c : Char} {text : List Char} (hinput : s'.input.rest = c :: text)
    (hcolumn : 0 < s'.input.column) :
    (c = ':' → isBlankOrEnd text = true → s.fetch = s'.valueSign) ∧
    (c = '|' → s.fetch = s'.blockScalar true) ∧ (c = '\'' → s.fetch = s'.quotedScalar true) ∧
    (c = '"' → s.fetch = s'.quotedScalar false) := by
  have hflow : s'.inFlow = false := by simp [inFlow, hlevel.keys]
  have hmarker := Input.atMarker_of_column hcolumn
  refine ⟨?_, ?_, ?_, ?_⟩
  · rintro rfl hblank
    unfold fetch
    simp only [hskip, hlevel.unindent, hinput, hmarker, hflow, hblank, Char.reduceBEq,
      Bool.and_false, Bool.false_and, Bool.false_or, Bool.and_self, Bool.false_eq_true, if_false,
      if_true]
  all_goals
    rintro rfl
    unfold fetch
    simp only [hskip, hlevel.unindent, hinput, hmarker, hflow, Char.reduceBEq, Bool.and_false,
      Bool.false_and, Bool.not_false, Bool.and_self, Bool.false_eq_true, if_false, if_true]

lemma refresh_near {s : Scan} {key : PossibleKey} {n : Nat} (hn : n ≤ keyLimit)
    (hs : s.input.mark = key.mark.forward n) : s.refresh key = .ok (some key) := by
  rw [refresh, if_neg]
  simp only [Input.line, hs, Mark.forward, Bool.or_eq_true, decide_eq_true_eq]
  omega

section

variable {m : Mark} {n : Nat} {indent : Int} {outer : List Int} {t : Token} {taken : Nat}
  {text : List Char}

/-- A key that may still turn up is waited for. -/
lemma waits_afterKey (hn : n ≤ keyLimit) : (afterKey m n indent outer t taken text).waits =
    .ok (true, afterKey m n indent outer t taken text) := by
  simp [waits, afterKey, refresh_near hn, pure, Except.pure, bind, Except.bind]

lemma fetch_colon (hm : m.column = 0) (hpos : 0 < n) (hn : n ≤ keyLimit)
    (hindent : indent = -1 ∨ indent = 0) : ∃ queue : List Token,
      (afterKey m n indent outer t taken (':' :: ' ' :: text)).fetch =
        .ok ⟨⟨m.forward (n + 1), ' ' :: text⟩, 0, if indent = -1 then indent :: outer else outer,
          false, [none], queue, taken, false⟩ ∧
      queue.map (·.kind) =
        (if indent = -1 then [.blockMappingStart] else []) ++ [.key, t.kind, .value] := by
  have hcolumn : 0 < (m.forward n).column := Nat.add_pos_right _ hpos
  have hlevel : Level (afterKey m n indent outer t taken (':' :: ' ' :: text)) := by
    refine ⟨rfl, ?_⟩
    change indent ≤ (m.forward n).column
    omega
  have hskip : skipToToken
      ((afterKey m n indent outer t taken (':' :: ' ' :: text)).input.rest.length + 1)
      (afterKey m n indent outer t taken (':' :: ' ' :: text)) =
        afterKey m n indent outer t taken (':' :: ' ' :: text) :=
    skipToToken_spaces 0 _ rfl (atToken_cons (by decide) _)
  have hrefresh := @refresh_near (afterKey m n indent outer t taken (':' :: ' ' :: text))
    ⟨indent == 0, taken, m⟩ n hn rfl
  have hhead : (afterKey m n indent outer t taken (':' :: ' ' :: text)).keys.headD none =
      some ⟨indent == 0, taken, m⟩ := rfl
  rw [(fetch_sign hskip hlevel rfl hcolumn).1 rfl rfl, valueSign, hhead, refresh?, hrefresh,
    ok_bind]
  simp only [afterKey, insert, openBlock, Nat.sub_self, inFlow, hm]
  obtain rfl | rfl := hindent
  · exact ⟨_, rfl, rfl⟩
  · exact ⟨_, rfl, rfl⟩

end

/-! ### Fields -/

/-- A scan that stands at the start of a line, once it has passed the end of the one before. -/
structure Fresh (indent : Int) (outer : List Int) (text : List Char) (s : Scan) : Prop where
  queue : s.queue = []
  ended : s.ended = false
  skip : ∃ m taken, m.column = 0 ∧ skipToToken (s.input.rest.length + 1) s =
    ⟨⟨m, text⟩, indent, outer, true, [none], [], taken, false⟩

lemma Fresh.waits {indent : Int} {outer : List Int} {text : List Char} {s : Scan}
    (h : Fresh indent outer text s) : s.waits = .ok (true, s) := by
  rw [Scan.waits, h.queue]

lemma atToken_of_keyChar {text : List Char} (h : ∀ c ∈ text.head?, isKeyChar c) : AtToken text :=
  fun c hc => ⟨isSolid_of_isKeyChar (h c hc), ne_of_isKeyChar (h c hc) rfl,
    ne_of_isKeyChar (h c hc) rfl⟩

section

variable {m : Mark} {indent : Int} {outer : List Int} {taken : Nat} {rest : List Char}

lemma fresh_of_lineStart (hm : m.column = 0) (hrest : AtToken rest) :
    Fresh indent outer rest ⟨⟨m, rest⟩, indent, outer, true, [none], [], taken, false⟩ :=
  ⟨rfl, rfl, m, taken, hm, skipToToken_spaces 0 _ rfl hrest⟩

lemma fresh_of_lineEnd (hrest : AtToken rest) :
    Fresh indent outer rest ⟨⟨m, '\n' :: rest⟩, indent, outer, false, [none], [], taken, false⟩ :=
  ⟨rfl, rfl, m.nextLine 1, taken, rfl, skipToToken_lineEnd _ rfl rfl hrest⟩

/-- A value that is fetched is handed out. -/
lemma hands_fetched {s : Scan} {i : Input} {allowed : Bool} {t : Token} (hqueue : s.queue = [])
    (hended : s.ended = false)
    (hfetch : s.fetch = .ok ⟨i, indent, outer, allowed, [none], [t], taken, false⟩) :
    Hands 2 s [t.kind] ⟨i, indent, outer, allowed, [none], [], taken + 1, false⟩ := by
  have hwaits : s.waits = .ok (true, s) := by rw [Scan.waits, hqueue]
  exact (Hands.fetch hwaits hended hfetch).trans (.queue i indent outer allowed [t] taken false)

end

lemma opensPlain_of_allowsPlain (indent column : Nat) {c : Char} {cs : List Char}
    (h : allowsPlain (c :: cs)) (rest : List Char) : ∃ more,
      plainText indent column (c :: cs) ++ '\n' :: rest = c :: more ∧ OpensPlain c more ∧
        c ≠ byteOrderMark := by
  obtain ⟨hc, hindicator⟩ := Plain.head_of_allowsPlain h
  have hlayout := (Plain.plainText_layout h indent column).line_of_word hc
  generalize plainText indent column (c :: cs) = text at hlayout
  cases hlayout with
  | space hp hrest => simp at hp
  | kept hp hkept hrest => simp at hp
  | @char _ _ x _ text hp hx hrest =>
    obtain ⟨-, rfl⟩ := hx
    refine ⟨text ++ '\n' :: rest, rfl, ⟨hc, hindicator, ?_⟩, ?_⟩
    · intro hsign
      obtain ⟨d, more, rfl, hd⟩ := Plain.next_of_allowsPlain h hsign
      obtain ⟨_, _, _, ⟨rfl⟩, ⟨-, rfl⟩, rfl⟩ := (hrest.line_of_word hd).exists_of_line
      simpa [isSolid, isBlankOrEnd] using hd
    · rintro rfl
      simp [allowsPlain, byteOrderMark, isSpecial, isPlainChar] at h

/-- A scan in the outermost mapping, between a key and the value on its line. -/
def atValue (m : Mark) (outer : List Int) (taken : Nat) (text : List Char) : Scan :=
  ⟨⟨m, text⟩, 0, outer, false, [none], [], taken, false⟩

section

variable {m : Mark} {outer : List Int} {taken : Nat} {cs rest : List Char}

lemma skipToToken_atValue {c : Char} {text : List Char} (h : AtToken (c :: text)) :
    skipToToken ((atValue m outer taken (' ' :: c :: text)).input.rest.length + 1)
      (atValue m outer taken (' ' :: c :: text)) = atValue (m.forward 1) outer taken (c :: text) :=
  skipToToken_spaces 1 _ rfl h

lemma level_atValue {text : List Char} : Level (atValue m outer taken text) :=
  ⟨rfl, Int.natCast_nonneg _⟩

lemma saveKey_atValue (text : List Char) :
    (atValue m outer taken text).saveKey = .ok (atValue m outer taken text) := by
  rfl

lemma fetch_plainText (column : Nat) (hne : cs ≠ []) (hplain : allowsPlain cs)
    (hrest : ∀ c ∈ rest.head?, isSolid c) : ∃ m' line, m'.column = 0 ∧
      (atValue m outer taken (' ' :: (plainText 2 column cs ++ '\n' :: rest))).fetch =
        .ok ⟨⟨m', rest⟩, 0, outer, true, [none], [⟨.scalar (String.ofList cs) true, line⟩], taken,
          false⟩ := by
  obtain ⟨m', hm', hread⟩ := Plain.read_plainText Nat.one_pos (by decide : 1 ≤ 2) column hne hplain
    hrest (m.forward 1) (Nat.le_add_left 1 _)
  obtain ⟨c, more, rfl⟩ := List.exists_cons_of_ne_nil hne
  obtain ⟨text, htext, hopens, hmark⟩ := opensPlain_of_allowsPlain 2 column hplain rest
  refine ⟨m', (m.forward 1).line, hm', ?_⟩
  rw [htext] at hread ⊢
  have htoken : AtToken (c :: text) := by
    rintro _ ⟨rfl⟩
    refine ⟨hopens.1, ?_, hmark⟩
    rintro rfl
    cases hopens.2.1
  rw [fetch_plain (skipToToken_atValue htoken) level_atValue rfl hopens
    (Input.atDocumentIndicator_of_column (Nat.succ_pos _)), plainScalar, saveKey_atValue, ok_bind]
  have hvalue : Plain.read (atValue (m.forward 1) outer taken (c :: text)).inFlow
      ((atValue (m.forward 1) outer taken (c :: text)).indent + 1).toNat
      (atValue (m.forward 1) outer taken (c :: text)).input =
        .ok ⟨c :: more, true, ⟨m', rest⟩⟩ := hread
  rw [hvalue]
  rfl

lemma fetch_quoted {single : Bool} {quote : Char} {text : List Char}
    (hquote : quote = if single then '\'' else '"')
    (hread : ∃ m', QuotedScalar.read single ⟨m.forward 1, quote :: text⟩ =
      .ok (cs, ⟨m', '\n' :: rest⟩)) :
    ∃ m' line, (atValue m outer taken (' ' :: quote :: text)).fetch =
      .ok ⟨⟨m', '\n' :: rest⟩, 0, outer, false, [none],
        [⟨.scalar (String.ofList cs) false, line⟩], taken, false⟩ := by
  obtain ⟨m', hread⟩ := hread
  have htoken : AtToken (quote :: text) := by
    rw [hquote]
    cases single <;> exact atToken_cons (by decide) _
  have hsign := fetch_sign (skipToToken_atValue htoken)
    (@level_atValue (m.forward 1) outer taken _) rfl (Nat.succ_pos _)
  have hfetch : (atValue m outer taken (' ' :: quote :: text)).fetch =
      (atValue (m.forward 1) outer taken (quote :: text)).quotedScalar single := by
    cases single with
    | false => exact hsign.2.2.2 hquote
    | true => exact hsign.2.2.1 hquote
  have hvalue : QuotedScalar.read single (atValue (m.forward 1) outer taken (quote :: text)).input =
      .ok (cs, ⟨m', '\n' :: rest⟩) := hread
  refine ⟨m', (m.forward 1).line, ?_⟩
  rw [hfetch, quotedScalar, saveKey_atValue, ok_bind, hvalue]
  rfl

lemma fetch_literalText (hliteral : allowsLiteral cs) (hrest : ∀ c ∈ rest.head?, isSolid c) :
    ∃ m' line, m'.column = 0 ∧ (atValue m outer taken (' ' :: (literalText 2 cs ++
      (if (cs.getLast?).any isBreak then [] else ['\n']) ++ rest))).fetch =
        .ok ⟨⟨m', rest⟩, 0, outer, true, [none], [⟨.scalar (String.ofList cs) false, line⟩], taken,
          false⟩ := by
  obtain ⟨m', hm', hread⟩ := Block.read_literalText hliteral hrest (m.forward 1)
  obtain ⟨text, htext⟩ : ∃ text, literalText 2 cs ++
      (if (cs.getLast?).any isBreak then [] else ['\n']) ++ rest = '|' :: text := ⟨_, rfl⟩
  rw [htext] at hread ⊢
  have htoken : AtToken ('|' :: text) := atToken_cons (by decide) _
  have hsign := fetch_sign (skipToToken_atValue htoken)
    (@level_atValue (m.forward 1) outer taken _) rfl (Nat.succ_pos _)
  have hdrop : (atValue (m.forward 1) outer taken ('|' :: text)).dropKey =
      .ok (atValue (m.forward 1) outer taken ('|' :: text)) := rfl
  have hvalue : Block.read true (atValue (m.forward 1) outer taken ('|' :: text)).indent
      (atValue (m.forward 1) outer taken ('|' :: text)).input = .ok (cs, ⟨m', rest⟩) := hread
  refine ⟨m', (m.forward 1).line, hm', ?_⟩
  rw [hsign.2.1 rfl, blockScalar, hdrop, ok_bind, hvalue]
  rfl

lemma hands_value (v : String) (column : Nat) (hrest : ∀ c ∈ rest.head?, isKeyChar c) : ∃ s',
    Hands 2 (atValue m outer taken (' ' :: ((scalarLine 2 column v).toList ++ rest)))
      [.scalar v (chooseStyle v = .plain)] s' ∧ Fresh 0 outer rest s' := by
  have hsolid : ∀ c ∈ rest.head?, isSolid c := fun c hc => isSolid_of_isKeyChar (hrest c hc)
  have htoken := atToken_of_keyChar hrest
  have hspec := chooseStyle_spec v
  rw [scalarLine, String.toList_ofList]
  cases hstyle : chooseStyle v with
  | plain =>
    rw [hstyle] at hspec
    obtain ⟨-, hquotes, hplain⟩ := hspec
    have hne : v.toList ≠ [] := by
      intro hnil
      obtain rfl : v = "" := String.toList_inj.mp hnil
      cases hquotes
    obtain ⟨m', line, hm', hfetch⟩ := @fetch_plainText m outer taken _ rest column hne hplain hsolid
    rw [String.ofList_toList] at hfetch
    simp only [List.append_assoc, List.singleton_append]
    exact ⟨_, hands_fetched rfl rfl hfetch, fresh_of_lineStart hm' htoken⟩
  | single =>
    rw [hstyle] at hspec
    obtain ⟨m', line, hfetch⟩ := @fetch_quoted m outer taken _ rest true '\'' _ rfl
      (QuotedScalar.read_singleText Nat.two_pos column hspec.1 hspec.2 (by simp) (m.forward 1))
    rw [String.ofList_toList] at hfetch
    simp only [List.append_assoc, List.singleton_append]
    exact ⟨_, hands_fetched rfl rfl hfetch, fresh_of_lineEnd htoken⟩
  | double =>
    obtain ⟨m', line, hfetch⟩ := @fetch_quoted m outer taken _ rest false '"' _ rfl
      (QuotedScalar.read_doubleText Nat.two_pos column v.toList ('\n' :: rest) (m.forward 1))
    rw [String.ofList_toList] at hfetch
    simp only [List.append_assoc, List.singleton_append]
    exact ⟨_, hands_fetched rfl rfl hfetch, fresh_of_lineEnd htoken⟩
  | literal =>
    obtain ⟨m', line, hm', hfetch⟩ := @fetch_literalText m outer taken _ rest
      (allowsLiteral_of_chooseStyle hstyle) hsolid
    rw [String.ofList_toList] at hfetch
    exact ⟨_, hands_fetched rfl rfl hfetch, fresh_of_lineStart hm' htoken⟩

end

/-- The kinds of the tokens of a field. -/
def fieldKinds (key value : String) : List TokenKind :=
  [.key, .scalar key true, .value, .scalar value (chooseStyle value = .plain)]

/-- The first field opens the mapping. -/
lemma hands_field {s : Scan} {indent : Int} {outer : List Int} {key rest : List Char}
    (hindent : indent = -1 ∨ indent = 0) (hkey : Key key) (value : String) (column : Nat)
    (hrest : ∀ c ∈ rest.head?, isKeyChar c)
    (hs : Fresh indent outer
      (key ++ ':' :: ' ' :: ((scalarLine 2 column value).toList ++ rest)) s) :
    ∃ n s', n ≤ 8 ∧
      Hands n s ((if indent = -1 then [.blockMappingStart] else []) ++
        fieldKinds (String.ofList key) value) s' ∧
      Fresh 0 (if indent = -1 then indent :: outer else outer) rest s' := by
  obtain ⟨m, taken, hm, hskip⟩ := hs.skip
  have hlength : 0 < key.length := List.length_pos_iff.mpr hkey.nonempty
  obtain ⟨queue, hcolon, hqueue⟩ := @fetch_colon m _ indent outer
    ⟨.scalar (String.ofList key) true, m.line⟩ taken ((scalarLine 2 column value).toList ++ rest) hm
    hlength hkey.short hindent
  obtain ⟨s', hvalue, hfresh⟩ := @hands_value (m.forward (key.length + 1))
    (if indent = -1 then indent :: outer else outer) (taken + queue.length) rest value column hrest
  have hkeyStep := Hands.fetch hs.waits hs.ended (fetch_key hkey hm (by omega) hskip)
  have hcolonStep := hkeyStep.trans (Hands.fetch (waits_afterKey hkey.short) rfl hcolon)
  have hall := (hcolonStep.trans (.queue _ _ _ _ queue _ _)).trans hvalue
  rw [hqueue] at hall
  refine ⟨_, s', ?_, by simpa [fieldKinds] using hall, hfresh⟩
  have hcount := congrArg List.length hqueue
  rw [List.length_map] at hcount
  split_ifs at hcount
  · simp at hcount
    omega
  · simp at hcount
    omega

/-- The text of fields at the outermost indentation. -/
def fieldsChars (fields : List (String × String)) : List Char :=
  fields.flatMap fun f => f.1.toList ++ ':' :: ' ' :: (scalarLine 2 (f.1.length + 2) f.2).toList

lemma fieldsChars_cons (f : String × String) (fields : List (String × String)) :
    fieldsChars (f :: fields) = f.1.toList ++ ':' :: ' ' ::
      ((scalarLine 2 (f.1.length + 2) f.2).toList ++ fieldsChars fields) := by
  simp [fieldsChars]

lemma head_fieldsChars {fields : List (String × String)} (hkeys : ∀ f ∈ fields, Key f.1.toList) :
    ∀ c ∈ (fieldsChars fields).head?, isKeyChar c := by
  cases fields with
  | nil => simp [fieldsChars]
  | cons f fields =>
    have hkey := hkeys f List.mem_cons_self
    obtain ⟨c, more, hmore⟩ := List.exists_cons_of_ne_nil hkey.nonempty
    rw [fieldsChars_cons, hmore]
    rintro _ ⟨rfl⟩
    exact hkey.letters c (by simp [hmore])

lemma length_le_fieldsChars (fields : List (String × String)) :
    fields.length ≤ (fieldsChars fields).length := by
  induction fields with
  | nil => exact Nat.zero_le _
  | cons f fields ih =>
    rw [fieldsChars_cons]
    simp only [List.length_append, List.length_cons]
    omega

lemma hands_fields {fields : List (String × String)} (hkeys : ∀ f ∈ fields, Key f.1.toList)
    {outer : List Int} {s : Scan} (hs : Fresh 0 outer (fieldsChars fields) s) : ∃ n s',
      n ≤ 8 * fields.length ∧ Hands n s (fields.flatMap fun f => fieldKinds f.1 f.2) s' ∧
      Fresh 0 outer [] s' := by
  induction fields generalizing s with
  | nil => exact ⟨0, s, Nat.zero_le _, .refl s, hs⟩
  | cons f fields ih =>
    obtain ⟨hkey, hrest⟩ := List.forall_mem_cons.mp hkeys
    rw [fieldsChars_cons] at hs
    obtain ⟨n, s₁, hn, hfield, hs₁⟩ := hands_field (.inr rfl) hkey f.2 _ (head_fieldsChars hrest) hs
    obtain ⟨n', s₂, hn', hfields, hs₂⟩ := ih hrest hs₁
    refine ⟨n + n', s₂, ?_, ?_, hs₂⟩
    · rw [List.length_cons]
      omega
    · simpa using hfield.trans hfields

/-- At its end the mapping is closed. -/
lemma hands_end {s : Scan} (hs : Fresh 0 [-1] [] s) : ∃ s',
    Hands 3 s [.blockEnd, .streamEnd] s' ∧ s'.queue = [] ∧ s'.ended = true := by
  obtain ⟨m, taken, hm, hskip⟩ := hs.skip
  have hlevel : Level ⟨⟨m, []⟩, 0, [-1], true, [none], [], taken, false⟩ :=
    ⟨rfl, Int.natCast_nonneg _⟩
  have hfetch : s.fetch = finish ⟨⟨m, []⟩, 0, [-1], true, [none], [], taken, false⟩ := by
    unfold fetch
    simp only [hskip, hlevel.unindent]
  have hfinish : finish ⟨⟨m, []⟩, 0, [-1], true, [none], [], taken, false⟩ =
      .ok ⟨⟨m, []⟩, -1, [], false, [none], [⟨.blockEnd, m.line⟩, ⟨.streamEnd, m.line⟩], taken,
        true⟩ := by
    unfold finish
    simp only [hm, if_true]
    rfl
  have hstep := Hands.fetch hs.waits hs.ended (hfetch.trans hfinish)
  exact ⟨_, hstep.trans (.queue _ _ _ _ _ _ _), rfl, rfl⟩

end Scan

/-- The tokens of a mapping of strings. -/
lemma tokens_fields {f : String × String} {fields : List (String × String)}
    (hkeys : ∀ g ∈ f :: fields, Key g.1.toList) : ∃ ts : List Token,
      tokens ⟨.start, Scan.fieldsChars (f :: fields)⟩ = (ts, none) ∧
      ts.map (·.kind) = .blockMappingStart ::
        ((f :: fields).flatMap fun g => Scan.fieldKinds g.1 g.2) ++ [.blockEnd, .streamEnd] := by
  obtain ⟨hkey, hrest⟩ := List.forall_mem_cons.mp hkeys
  have hstart : Scan.Fresh (-1) [] (Scan.fieldsChars (f :: fields))
      (.start ⟨.start, Scan.fieldsChars (f :: fields)⟩) :=
    Scan.fresh_of_lineStart rfl (Scan.atToken_of_keyChar (Scan.head_fieldsChars hkeys))
  have hlength := Scan.length_le_fieldsChars (f :: fields)
  rw [tokens]
  generalize Scan.start _ = s at hstart ⊢
  dsimp only
  generalize (Scan.fieldsChars (f :: fields)).length = length at hlength ⊢
  rw [Scan.fieldsChars_cons] at hstart
  obtain ⟨n₁, s₁, hn₁, hfirst, hs₁⟩ :=
    Scan.hands_field (.inl rfl) hkey f.2 _ (Scan.head_fieldsChars hrest) hstart
  obtain ⟨n₂, s₂, hn₂, hfields, hs₂⟩ := Scan.hands_fields hrest hs₁
  obtain ⟨s₃, hend, hqueue, hended⟩ := Scan.hands_end hs₂
  obtain ⟨ts, hkinds, hrun⟩ := (hfirst.trans hfields).trans hend
  have hstop : ∀ fuel, Scan.run (fuel + 1) s₃ = ([], none) := by
    intro fuel
    simp [Scan.run_succ, Scan.waits, hqueue, hended]
  obtain ⟨fuel, hfuel⟩ : ∃ fuel, 8 * (length + 4) = fuel + 1 + (n₁ + n₂ + 3) := by
    rw [List.length_cons] at hlength
    exact ⟨8 * (length + 4) - (n₁ + n₂ + 4), by omega⟩
  refine ⟨ts, ?_, by simpa using hkinds⟩
  rw [hfuel, hrun, hstop, List.append_nil]

end HiToolchain.Yaml
