import HiToolchain.Proofs.FoldedText

/-!
# Plain and quoted scalars are read as they were written

For each reader an inductive relation says what it reads from some place on, without the fuel of
its loops. Every layout of a string is related to that string, and what is related is read.
-/

namespace HiToolchain.Yaml

/-! ### Reading between quotes -/

namespace QuotedScalar

/-- Between quotes the characters are read from here on, with `rest` after the closing quote. -/
inductive Reads (single : Bool) (rest : List Char) : Input → List Char → Prop
  | closed {i : Input} {m : Mark} (h : readItem single i = .ok (.stop .closed ⟨m, rest⟩)) :
      Reads single rest i []
  | char {i i' : Input} {c : Char} {cs : List Char} (h : readItem single i = .ok (.char c i'))
      (hlength : i'.rest.length < i.rest.length) (hrest : Reads single rest i' cs) :
      Reads single rest i (c :: cs)
  | gap {i i' : Input} {g : Gap} {cs : List Char} (h : readItem single i = .ok (.stop .gap i))
      (hgap : Gap.empty.read 0 i = .ok (g, i')) (hlength : i'.rest.length < i.rest.length)
      (hmarker : i'.atDocumentIndicator = false) (hrest : Reads single rest i' cs) :
      Reads single rest i (g.text ++ cs)

/-- The rest of a scalar after a run and the gap that follows it. -/
def afterGap (single : Bool) (fuel : Nat) (gap : Gap) (run : List Char) (i : Input) :
    Except Fault (List Char × Input) := do
  let (gap, i) ← gap.read 0 i
  let (value, i) ← readRuns single fuel i
  return (run ++ gap.text ++ value, i)

/-- The rest of a scalar after a run. -/
def afterRun (single : Bool) (fuel : Nat) :
    List Char × Stop × Input → Except Fault (List Char × Input)
  | (run, .closed, i) => .ok (run, i)
  | (run, .gap, i) => afterGap single fuel .empty run i
  | (run, .escapedBreak, i) => afterGap single fuel .escapedBreak run i

lemma readRuns_succ {single : Bool} {fuel : Nat} {i : Input}
    (hmarker : i.atDocumentIndicator = false) (hne : i.rest ≠ []) :
    readRuns single (fuel + 1) i =
      readRun single (i.rest.length + 1) i >>= afterRun single fuel := by
  rw [readRuns, if_neg (by simp [hmarker]), if_neg (by simpa using hne)]
  refine bind_congr fun ⟨run, stop, i⟩ => ?_
  cases stop <;> rfl

lemma afterRun_cons (single : Bool) (fuel : Nat) (c : Char) (r : List Char × Stop × Input) :
    afterRun single fuel (c :: r.1, r.2) =
      afterRun single fuel r >>= fun r => .ok (c :: r.1, r.2) := by
  obtain ⟨run, stop, i⟩ := r
  have hgap : ∀ gap : Gap, afterGap single fuel gap (c :: run) i =
      afterGap single fuel gap run i >>= fun r => .ok (c :: r.1, r.2) := by
    intro gap
    unfold afterGap
    cases gap.read 0 i with
    | error fault => rfl
    | ok r =>
      obtain ⟨gap', i'⟩ := r
      simp only [ok_bind]
      cases readRuns single fuel i' <;> rfl
  cases stop with
  | closed => rfl
  | gap => exact hgap .empty
  | escapedBreak => exact hgap .escapedBreak

lemma Reads.rest_ne_nil {single : Bool} {rest cs : List Char} {i : Input}
    (h : Reads single rest i cs) : i.rest ≠ [] := by
  intro hnil
  cases h with
  | closed h => simp [readItem, hnil] at h
  | char h hlength hrest => simp [hnil] at hlength
  | gap h hgap hlength hmarker hrest => simp [hnil] at hlength

/-- The loops over runs and over characters come to the end if their fuel exceeds the text. -/
lemma Reads.bind_afterRun {single : Bool} {rest cs : List Char} {i : Input}
    (h : Reads single rest i cs) {n fuel : Nat} (hn : i.rest.length < n)
    (hfuel : i.rest.length ≤ fuel) :
    ∃ m, (readRun single n i >>= afterRun single fuel) = .ok (cs, ⟨m, rest⟩) := by
  induction h generalizing n fuel with
  | @closed i m h =>
    obtain ⟨n, rfl⟩ : ∃ k, n = k + 1 := ⟨n - 1, by omega⟩
    refine ⟨m, ?_⟩
    rw [readRun, h]
    rfl
  | @char i i' c cs h hlength hrest ih =>
    obtain ⟨n, rfl⟩ : ∃ k, n = k + 1 := ⟨n - 1, by omega⟩
    obtain ⟨m, hm⟩ := @ih n fuel (by omega) (by omega)
    refine ⟨m, ?_⟩
    have hstep : readRun single (n + 1) i =
        readRun single n i' >>= fun r => .ok (c :: r.1, r.2) := by
      rw [readRun, h]
      rfl
    rw [hstep, bind_assoc]
    simp only [ok_bind, afterRun_cons]
    rw [← bind_assoc, hm]
    rfl
  | @gap i i' g cs h hgap hlength hmarker hrest ih =>
    obtain ⟨n, rfl⟩ : ∃ k, n = k + 1 := ⟨n - 1, by omega⟩
    obtain ⟨fuel, rfl⟩ : ∃ k, fuel = k + 1 := ⟨fuel - 1, by omega⟩
    obtain ⟨m, hm⟩ := @ih (i'.rest.length + 1) fuel (by omega) (by omega)
    refine ⟨m, ?_⟩
    have hstep : readRun single (n + 1) i = .ok ([], .gap, i) := by
      rw [readRun, h]
      rfl
    rw [hstep, ok_bind, afterRun, afterGap, hgap, ok_bind]
    dsimp only
    rw [readRuns_succ hmarker hrest.rest_ne_nil, hm]
    rfl

lemma Reads.read_eq {single : Bool} {rest cs : List Char} {i : Input}
    (h : Reads single rest (i.skip 1) cs) :
    ∃ m, QuotedScalar.read single i = .ok (cs, ⟨m, rest⟩) := by
  have hlength : (i.skip 1).rest.length ≤ i.rest.length := by simp [Input.skip]
  have hmarker : (i.skip 1).atDocumentIndicator = false :=
    Input.atDocumentIndicator_of_column (Nat.succ_pos _)
  rw [QuotedScalar.read, readRuns_succ hmarker h.rest_ne_nil]
  exact h.bind_afterRun (Nat.lt_succ_self _) hlength

/-- A gap in which the characters are read on. -/
lemma Reads.of_leads {single : Bool} {rest cs text : List Char} {c : Char} {m : Mark}
    (hreturn : c ≠ '\r') (hc : isSolid c = false)
    (h : Gap.empty.Leads 0 (fun i cs => i.atDocumentIndicator = false ∧ Reads single rest i cs)
      ⟨m, c :: text⟩ cs) : Reads single rest ⟨m, c :: text⟩ cs := by
  obtain ⟨g, i', cs', hread, ⟨hmarker, hreads⟩, rfl⟩ := h
  refine .gap ?_ hread (Gap.length_readFrom_lt hreturn hc hread) hmarker hreads
  rw [readItem]
  simp only [isSolid, Bool.not_eq_false'] at hc
  simp only [hc, if_true]

/-- Each piece is read as its character, whatever follows. -/
structure Readable (single : Bool) (piece : Char → List Char → Prop) : Prop where
  solid : ∀ c x, piece c x → ∃ d more, x = d :: more ∧ isSolid d
  item : ∀ c x m text, piece c x →
    readItem single ⟨m, x ++ text⟩ = .ok (.char c ⟨m.forward x.length, text⟩)

/-- The text reads as the characters from a place on. In a gap they come after what the gap has
held so far. -/
def ReadsFrom (single : Bool) (rest : List Char) (i : Input) (cs : List Char) : Place → Prop
  | .word | .line => Reads single rest i cs
  | .blanks => ∀ g : Gap, g.broken = false → 0 < i.column →
      g.Leads 0 (fun i cs => i.atDocumentIndicator = false ∧ Reads single rest i cs) i
        (g.text ++ cs)
  | .broken => ∀ g : Gap, g.broken = true → g.first ≠ ['\n'] →
      g.Leads 0 (fun i cs => i.atDocumentIndicator = false ∧ Reads single rest i cs) i
        (g.text ++ cs)

section

variable {single : Bool} {piece : Char → List Char → Prop} {indent : Nat}

lemma readsFrom_of_layout {p : Place} {cs text : List Char} (h : Layout indent piece p cs text)
    (hpiece : Readable single piece) (hindent : 0 < indent) {quote : Char} {rest : List Char}
    (hquote : isSolid quote ∧ quote ≠ '-' ∧ quote ≠ '.')
    (hclose : ∀ m, readItem single ⟨m, quote :: rest⟩ = .ok (.stop .closed ⟨m.forward 1, rest⟩))
    (m : Mark) : ReadsFrom single rest ⟨m, text ++ quote :: rest⟩ cs p := by
  induction h generalizing m with
  | @nil p hp =>
    have hclosed : Reads single rest ⟨m, quote :: rest⟩ [] := .closed (hclose m)
    have hmarker : (⟨m, quote :: rest⟩ : Input).atDocumentIndicator = false :=
      Input.atDocumentIndicator_of_head hquote.2
    cases p with
    | word => exact hclosed
    | line => exact hclosed
    | blanks => exact fun g _ _ => .stop hquote.1 ⟨hmarker, hclosed⟩
    | broken => exact fun g _ _ => .stop hquote.1 ⟨hmarker, hclosed⟩
  | @char p c x cs text hp hx hrest ih =>
    obtain ⟨d, more, hsplit, hd⟩ := hpiece.solid c x hx
    have hreads : Reads single rest ⟨m, x ++ text ++ quote :: rest⟩ (c :: cs) := by
      rw [List.append_assoc]
      refine .char (hpiece.item c x m _ hx) ?_ (ih _)
      simp [hsplit]
    cases p with
    | word => exact hreads
    | line => exact hreads
    | broken => exact (hp rfl).elim
    | blanks =>
      intro g _ hcolumn
      rw [hsplit] at hreads ⊢
      exact .stop hd ⟨Input.atDocumentIndicator_of_column hcolumn, hreads⟩
  | @space p cs text hp hrest ih =>
    have hrest := ih (m.forward 1)
    obtain rfl | rfl := hp
    · refine .of_leads (by decide) (by decide) (.blank ?_)
      exact hrest (Gap.empty.addBlank ' ') rfl (Nat.succ_pos _)
    · intro g hg _
      have hleads := hrest (g.addBlank ' ') (by rw [Gap.addBlank_broken, hg]) (Nat.succ_pos _)
      rw [Gap.text_addBlank hg, List.append_assoc] at hleads
      exact .blank hleads
  | @fold cs text hrest ih =>
    obtain ⟨c, x, more, -, hx, rfl⟩ := hrest.exists_of_line
    obtain ⟨d, more', rfl, hd⟩ := hpiece.solid c x hx
    have hstart := ih ((m.nextLine 1).forward indent)
    rw [List.append_assoc]
    refine .of_leads (by decide) (by decide) (.newLine hd ⟨?_, hstart⟩)
    exact Input.atDocumentIndicator_of_column (by simpa [Input.column, Mark.forward] using by omega)
  | @kept p c cs text hp hc hrest ih =>
    obtain ⟨hblank, hbreak, htext, hreturn, hfeed, -⟩ := isKeptBreak_spec hc
    have hrest := ih (m.nextLine 1)
    obtain rfl | rfl := hp
    · refine .of_leads hreturn (by simp [isSolid, hbreak]) (.lineBreak hblank hbreak hreturn ?_)
      have hleads := hrest (Gap.empty.addBreak c) rfl (by simpa [Gap.addBreak, Gap.empty])
      rw [htext]
      simpa [Gap.text, Gap.addBreak, Gap.empty, hfeed] using hleads
    · intro g hg hfirst
      have hleads := hrest (g.addBreak c) (Gap.addBreak_broken g c)
        (by rwa [Gap.addBreak, if_pos hg])
      rw [Gap.text_addBreak hg hfirst, List.append_assoc] at hleads
      refine .lineBreak hblank hbreak hreturn ?_
      rw [htext]
      exact hleads
  | @indented cs text hrest ih =>
    intro g hg _
    obtain ⟨c, x, more, -, hx, rfl⟩ := hrest.exists_of_line
    obtain ⟨d, more', rfl, hd⟩ := hpiece.solid c x hx
    rw [List.append_assoc]
    refine .spaces indent hg (.stop hd ⟨?_, ih (m.forward indent)⟩)
    exact Input.atDocumentIndicator_of_column (by simpa [Input.column, Mark.forward] using by omega)

end

lemma not_escape_of_isBreak {c : Char} (h : isBreak c) :
    shortEscape? c = none ∧ codeLength? c = none := by
  have hof : ∀ n, c.toNat = n → c = Char.ofNat n := by
    rintro n rfl
    exact c.ofNat_toNat.symm
  simp only [isBreak, Bool.or_eq_true, beq_iff_eq] at h
  obtain (((rfl | rfl) | h) | h) | h := h
  · decide
  · decide
  · rw [hof _ h]
    decide
  · rw [hof _ h]
    decide
  · rw [hof _ h]
    decide

lemma readItem_escape {c : Char} {x : List Char} (h : Escapes c x) (m : Mark) (text : List Char) :
    readItem false ⟨m, x ++ text⟩ = .ok (.char c ⟨m.forward x.length, text⟩) := by
  obtain ⟨letter, digits, rfl, hread⟩ := h
  have hbreak : isBreak letter = false := by
    rw [← Bool.not_eq_true]
    intro hbreak
    obtain ⟨hshort, hlong⟩ := not_escape_of_isBreak hbreak
    simp [hshort, hlong] at hread
  have hescape : readItem false ⟨m, '\\' :: letter :: digits ++ text⟩ =
      readEscape ⟨m, '\\' :: letter :: (digits ++ text)⟩ := rfl
  rw [hescape, readEscape]
  obtain ⟨hshort, rfl⟩ | ⟨hshort, hlong, hcode⟩ := hread
  · simp [hbreak, hshort, Input.skip]
  · simp [hbreak, hshort, hlong, hcode, Input.skip, Nat.add_comm 2]

lemma readable_quotedPiece : Readable false QuotedPiece := by
  constructor
  · intro c x hx
    cases hx with
    | char hsolid h => exact ⟨c, [], rfl, hsolid⟩
    | escaped h hallowed =>
      obtain ⟨letter, digits, rfl, -⟩ := h
      exact ⟨'\\', _, rfl, by decide⟩
  · intro c x m text hx
    cases hx with
    | escaped h hallowed => exact readItem_escape h m text
    | char hsolid h =>
      simp only [needsEscape, Bool.or_eq_false_iff, beq_eq_false_iff_ne] at h
      have hgap : (isBlank c || isBreak c) = false := by simpa [isSolid] using hsolid
      simp [readItem, hgap, h.1.2, h.2, Input.skip]

lemma readable_quoteTwice : Readable true fun c x => isSolid c ∧ x = quoteTwice c := by
  constructor
  · rintro c _ ⟨hsolid, rfl⟩
    unfold quoteTwice
    split
    · exact ⟨c, [c], rfl, hsolid⟩
    · exact ⟨c, [], rfl, hsolid⟩
  · rintro c _ m text ⟨hsolid, rfl⟩
    have hgap : (isBlank c || isBreak c) = false := by simpa [isSolid] using hsolid
    by_cases hquote : c = '\''
    · subst hquote
      rfl
    · simp [readItem, quoteTwice, hgap, hquote, Input.skip]

lemma read_doubleText {indent : Nat} (hindent : 0 < indent) (column : Nat) (cs rest : List Char)
    (m : Mark) :
    ∃ m', read false ⟨m, doubleText indent column cs ++ rest⟩ = .ok (cs, ⟨m', rest⟩) := by
  have hlayout := (foldDouble_layout indent cs (column + 1) true false).1 .word .word
  have hclose : ∀ m, readItem false ⟨m, '"' :: rest⟩ = .ok (.stop .closed ⟨m.forward 1, rest⟩) :=
    fun _ => rfl
  have hreads := readsFrom_of_layout hlayout readable_quotedPiece hindent (by decide) hclose
    (m.forward 1)
  refine Reads.read_eq ?_
  simpa [doubleText, Input.skip] using! hreads

lemma singleText_layout {cs : List Char} (hfeed : '\n' ∉ cs) (hsingle : allowsSingle cs)
    (indent column : Nat) : Layout indent (fun c x => isSolid c ∧ x = quoteTwice c) .word cs
      (foldFlow indent quoteTwice column true false false cs) := by
  simp only [allowsSingle, Bool.not_eq_true', Bool.or_eq_false_iff, List.any_eq_false,
    Bool.not_eq_true] at hsingle
  exact foldFlow_layout hfeed hsingle.2 hsingle.1.1 hsingle.1.2 .word

lemma read_singleText {indent : Nat} (hindent : 0 < indent) (column : Nat) {cs rest : List Char}
    (hfeed : '\n' ∉ cs) (hsingle : allowsSingle cs) (hrest : rest.head? ≠ some '\'') (m : Mark) :
    ∃ m', read true ⟨m, singleText indent column cs ++ rest⟩ = .ok (cs, ⟨m', rest⟩) := by
  have hclose : ∀ m, readItem true ⟨m, '\'' :: rest⟩ =
      .ok (.stop .closed ⟨m.forward 1, rest⟩) := by
    intro m
    simp [readItem, hrest, isBlank, isBreak, Input.skip]
  have hreads := readsFrom_of_layout (singleText_layout hfeed hsingle indent (column + 1))
    readable_quoteTwice hindent (by decide) hclose (m.forward 1)
  have htext : singleText indent column cs ++ rest =
      '\'' :: (foldFlow indent quoteTwice (column + 1) true false false cs ++ '\'' :: rest) := by
    rw [singleText, List.append_assoc]
    rfl
  refine Reads.read_eq ?_
  rw [htext]
  exact hreads

end QuotedScalar

/-! ### Reading plain text -/

@[simp] lemma Input.skip_zero (i : Input) : i.skip 0 = i := rfl

lemma Input.skip_succ_cons (n : Nat) (m : Mark) (c : Char) (text : List Char) :
    (⟨m, c :: text⟩ : Input).skip (n + 1) = (⟨m.forward 1, text⟩ : Input).skip n := by
  simp [skip, Mark.forward, Nat.add_assoc, Nat.add_comm 1 n]

namespace Plain

/-- In a word outside of brackets the characters are read from here on, to the end of a line with
`rest` after it. -/
inductive Reads (least : Nat) (rest : List Char) : Input → List Char → Prop
  | done {m : Mark} : Reads least rest ⟨m, '\n' :: rest⟩ []
  | char {m : Mark} {c : Char} {text cs : List Char} (hc : isSolid c)
      (hcolon : c = ':' → isBlankOrEnd text = false)
      (hrest : Reads least rest ⟨m.forward 1, text⟩ cs) :
      Reads least rest ⟨m, c :: text⟩ (c :: cs)
  | gap {i i' : Input} {g : Gap} {b : Char} {text cs : List Char} (hi : i.rest = b :: text)
      (hb : isSolid b = false) (hgap : Gap.empty.read least i = .ok (g, i'))
      (hlength : i'.rest.length < i.rest.length) (hcolumn : least ≤ i'.column)
      (hstart : i'.atDocumentIndicator = false ∧ i'.startsWith '#' = false)
      (hword : wordLength false i'.rest ≠ 0) (hrest : Reads least rest i' cs) :
      Reads least rest i (g.text ++ cs)

/-- The rest of a scalar after a word. -/
def afterWord (least fuel : Nat) (value : List Char) (i : Input) : Except Fault Result :=
  match i.rest with
  | [] => .ok ⟨value, false, i⟩
  | c :: _ =>
    if !(isBlank c || isBreak c) then .ok ⟨value, false, i⟩
    else do
      let (gap, i) ← Gap.empty.read least i
      if i.column < least then return ⟨value, gap.broken, i⟩
      else readWords false least fuel value gap i

/-- The rest of a scalar in a word. -/
def inWord (least fuel : Nat) (value : List Char) (i : Input) : Except Fault Result :=
  let n := wordLength false i.rest
  afterWord least fuel (value ++ i.rest.take n) (i.skip n)

lemma readWords_succ {least fuel : Nat} {value : List Char} {gap : Gap} {i : Input}
    (hstart : i.atDocumentIndicator = false ∧ i.startsWith '#' = false)
    (hword : wordLength false i.rest ≠ 0) :
    readWords false least (fuel + 1) value gap i = inWord least fuel (value ++ gap.text) i := by
  have hne : (i.rest.take (wordLength false i.rest)).isEmpty = false := by
    have hrest : i.rest ≠ [] := by
      intro hnil
      rw [hnil] at hword
      exact hword rfl
    simpa [List.take_eq_nil_iff, hword] using hrest
  rw [readWords, if_neg (by simp [hstart])]
  simp only [hne, Bool.false_eq_true, if_false, inWord, afterWord, Bool.not_false, Bool.true_and,
    decide_eq_true_eq]
  cases (i.skip (wordLength false i.rest)).rest with
  | nil => rfl
  | cons c text => rfl

lemma wordLength_of_not_solid {c : Char} (hc : isSolid c = false) (text : List Char) :
    wordLength false (c :: text) = 0 := by
  simp only [isSolid, Bool.not_eq_false'] at hc
  rw [wordLength, if_pos hc]

lemma wordLength_cons {c : Char} {text : List Char} (hc : isSolid c)
    (hcolon : c = ':' → isBlankOrEnd text = false) :
    wordLength false (c :: text) = wordLength false text + 1 := by
  have hgap : (isBlank c || isBreak c) = false := by simpa [isSolid] using hc
  have hend : (c == ':' && isBlankOrEnd text) = false := by
    by_cases h : c = ':'
    · simp [hcolon h]
    · simp [h]
  simp [wordLength, hgap, hend]

lemma Reads.inWord_eq {least fuel : Nat} {rest cs : List Char} {i : Input} (hleast : 0 < least)
    (hrest : ∀ c ∈ rest.head?, isSolid c) (h : Reads least rest i cs) (value : List Char)
    (hfuel : i.rest.length ≤ fuel) :
    ∃ m, m.column = 0 ∧ inWord least fuel value i = .ok ⟨value ++ cs, true, ⟨m, rest⟩⟩ := by
  induction h generalizing value fuel with
  | @done m =>
    refine ⟨m.nextLine 1, rfl, ?_⟩
    have hword : wordLength false ('\n' :: rest) = 0 := rfl
    simp only [inWord, hword, List.take_zero, List.append_nil, Input.skip_zero, afterWord,
      Gap.read_lineEnd hrest, ok_bind]
    rw [if_neg (by decide), if_pos (by simpa [Input.column, Mark.nextLine] using hleast)]
    rfl
  | @char m c text cs hc hcolon hrest ih =>
    obtain ⟨m', hcolumn, hm'⟩ := ih (value ++ [c]) (Nat.le_of_succ_le hfuel)
    refine ⟨m', hcolumn, ?_⟩
    rw [List.append_assoc] at hm'
    rw [inWord] at hm' ⊢
    simp only [wordLength_cons hc hcolon, Input.skip_succ_cons, List.take_succ_cons]
    rw [List.append_cons]
    exact hm'
  | @gap i i' g b text cs hi hb hgap hlength hcolumn hstart hword hrest ih =>
    obtain ⟨fuel, rfl⟩ : ∃ k, fuel = k + 1 := ⟨fuel - 1, by omega⟩
    obtain ⟨m', hm', heq⟩ := @ih fuel (value ++ g.text) (by omega)
    refine ⟨m', hm', ?_⟩
    have hgapHead : (!(isBlank b || isBreak b)) = false := hb
    simp only [inWord, hi, wordLength_of_not_solid hb, List.take_zero, List.append_nil,
      Input.skip_zero, afterWord, hgapHead, Bool.false_eq_true, if_false, hgap, ok_bind]
    rw [if_neg (by omega), readWords_succ hstart hword, heq, List.append_assoc]

/-- What a plain scalar may hold from some place on. -/
structure Tame (cs : List Char) : Prop where
  breaks : ∀ c ∈ cs, isBreak c = false
  colons : endsWord ':' cs = false
  hashes : anyAdjacent (fun a b => isBlank a && b == '#') cs = false
  last : cs.getLast? ≠ some ' '

lemma Tame.tail {c : Char} {cs : List Char} (h : Tame (c :: cs)) : Tame cs := by
  cases cs with
  | nil => exact ⟨by simp, rfl, rfl, by simp⟩
  | cons d cs =>
    have hcolons := h.colons
    have hhashes := h.hashes
    have hlast := h.last
    rw [endsWord, Bool.or_eq_false_iff] at hcolons
    rw [anyAdjacent, Bool.or_eq_false_iff] at hhashes
    rw [List.getLast?_cons_cons] at hlast
    exact ⟨fun e he => h.breaks e (.tail _ he), hcolons.2, hhashes.2, hlast⟩

/-- After a colon there is something to see. -/
lemma Tame.solid_of_colon {cs : List Char} (h : Tame (':' :: cs)) :
    ∃ d more, cs = d :: more ∧ isSolid d := by
  cases cs with
  | nil => cases h.colons
  | cons d cs =>
    have hcolons := h.colons
    rw [endsWord, Bool.or_eq_false_iff] at hcolons
    refine ⟨d, cs, rfl, isSolid_iff.mpr ⟨by simpa using hcolons.1, ?_⟩⟩
    exact h.breaks d (by simp)

/-- A space is followed by something else than the start of a comment. -/
lemma Tame.head_of_space {cs : List Char} (h : Tame (' ' :: cs)) :
    cs ≠ [] ∧ cs.head? ≠ some '#' := by
  cases cs with
  | nil => exact (h.last rfl).elim
  | cons d cs =>
    have hhashes := h.hashes
    rw [anyAdjacent, Bool.or_eq_false_iff] at hhashes
    refine ⟨by simp, ?_⟩
    rintro ⟨rfl⟩
    simp [isBlank] at hhashes

/-- A scalar goes on at a word. -/
structure Starts (least : Nat) (rest : List Char) (i : Input) (cs : List Char) : Prop where
  column : least ≤ i.column
  start : i.atDocumentIndicator = false ∧ i.startsWith '#' = false
  word : wordLength false i.rest ≠ 0
  reads : Reads least rest i cs

/-- The text reads as the characters from a place on. In a gap they come after what the gap has
held so far. -/
def ReadsFrom (least : Nat) (rest : List Char) (i : Input) (cs : List Char) : Place → Prop
  | .word => Reads least rest i cs
  | .line => cs.head? ≠ some '#' → Starts least rest i cs
  | .blanks => ∀ g : Gap, g.broken = false → cs ≠ [] → cs.head? ≠ some '#' →
      g.Leads least (Starts least rest) i (g.text ++ cs)
  | .broken => True

lemma Reads.of_leads {least : Nat} {rest cs text : List Char} {c : Char} {m : Mark}
    (hreturn : c ≠ '\r') (hc : isSolid c = false)
    (h : Gap.empty.Leads least (Starts least rest) ⟨m, c :: text⟩ cs) :
    Reads least rest ⟨m, c :: text⟩ cs := by
  obtain ⟨g, i', cs', hread, hstarts, rfl⟩ := h
  exact .gap rfl hc hread (Gap.length_readFrom_lt hreturn hc hread) hstarts.column hstarts.start
    hstarts.word hstarts.reads

lemma readsFrom_of_layout {indent least : Nat} {p : Place} {cs text rest : List Char}
    (h : Layout indent (fun c x => isSolid c ∧ x = [c]) p cs text) (hcs : Tame cs)
    (hleast : 0 < least) (hindent : least ≤ indent) (m : Mark) (hm : least ≤ m.column) :
    ReadsFrom least rest ⟨m, text ++ '\n' :: rest⟩ cs p := by
  induction h generalizing m with
  | @nil p hp =>
    cases p with
    | word => exact .done
    | line => exact (hp rfl).elim
    | blanks => exact fun g _ hne => (hne rfl).elim
    | broken => trivial
  | @char p c x cs text hp hx hrest ih =>
    obtain ⟨hc, rfl⟩ := hx
    have hcolon : c = ':' → isBlankOrEnd (text ++ '\n' :: rest) = false := by
      rintro rfl
      obtain ⟨d, more, rfl, hd⟩ := hcs.solid_of_colon
      obtain ⟨_, _, _, ⟨rfl⟩, ⟨-, rfl⟩, rfl⟩ := (hrest.line_of_word hd).exists_of_line
      simpa [isSolid, isBlankOrEnd] using hd
    have hreads : Reads least rest ⟨m, c :: (text ++ '\n' :: rest)⟩ (c :: cs) :=
      .char hc hcolon (ih hcs.tail (m.forward 1) (Nat.le_succ_of_le hm))
    have hstarts : c ≠ '#' → Starts least rest ⟨m, c :: (text ++ '\n' :: rest)⟩ (c :: cs) := by
      intro hhash
      have hcolumn : 0 < m.column := Nat.lt_of_lt_of_le hleast hm
      refine ⟨hm, ⟨Input.atDocumentIndicator_of_column hcolumn, ?_⟩, ?_, hreads⟩
      · simpa [Input.startsWith] using hhash
      · simp [wordLength_cons hc hcolon]
    cases p with
    | word => exact hreads
    | line => exact fun hhash => hstarts fun h => hhash (by rw [h]; rfl)
    | blanks => exact fun g _ _ hhash => .stop hc (hstarts fun h => hhash (by rw [h]; rfl))
    | broken => trivial
  | @space p cs text hp hrest ih =>
    obtain ⟨hne, hhash⟩ := hcs.head_of_space
    have hrest := ih hcs.tail (m.forward 1) (Nat.le_succ_of_le hm)
    obtain rfl | rfl := hp
    · refine .of_leads (by decide) (by decide) (.blank ?_)
      exact hrest (Gap.empty.addBlank ' ') rfl hne hhash
    · intro g hg _ _
      have hleads := hrest (g.addBlank ' ') (by rw [Gap.addBlank_broken, hg]) hne hhash
      rw [Gap.text_addBlank hg, List.append_assoc] at hleads
      exact .blank hleads
  | @fold cs text hrest ih =>
    have hcolumn : least ≤ ((m.nextLine 1).forward indent).column := by
      simpa [Mark.forward, Mark.nextLine] using hindent
    have hstarts := ih hcs.tail _ hcolumn hcs.head_of_space.2
    obtain ⟨c, x, more, -, ⟨hc, rfl⟩, rfl⟩ := hrest.exists_of_line
    rw [List.append_assoc]
    exact .of_leads (by decide) (by decide) (.newLine hc hstarts)
  | @kept p c cs text hp hc hrest ih =>
    have hbreak := hcs.breaks c (by simp)
    rw [(isKeptBreak_spec hc).2.1] at hbreak
    cases hbreak
  | @indented cs text hrest ih => trivial

lemma tame_of_allowsPlain {cs : List Char} (h : allowsPlain cs) : Tame cs := by
  simp only [allowsPlain, hasIndicator, Bool.not_eq_true', Bool.or_eq_false_iff, List.any_eq_false,
    Bool.not_eq_true, beq_eq_false_iff_ne] at h
  obtain ⟨⟨⟨⟨hbreaks, -⟩, ⟨-, hcolons⟩, hhashes⟩, -⟩, hlast⟩ := h
  exact ⟨hbreaks, hcolons, hhashes, hlast⟩

/-- A plain scalar starts with something to see that is no sign. -/
lemma head_of_allowsPlain {c : Char} {cs : List Char} (h : allowsPlain (c :: cs)) :
    isSolid c ∧ isIndicator c = false := by
  have hindicator : isIndicator c = false := by
    rw [← Bool.not_eq_true]
    intro hc
    simp [allowsPlain, hasIndicator_of_head hc] at h
  simp only [allowsPlain, List.any_cons, Bool.not_eq_true', Bool.or_eq_false_iff] at h
  exact ⟨isSolid_of_not_special h.1.1.1.2.1 (by simpa using h.1.2) h.1.1.1.1.1, hindicator⟩

/-- After a dash, a question mark or a colon at the start there is something to see. -/
lemma next_of_allowsPlain {c : Char} {cs : List Char} (h : allowsPlain (c :: cs))
    (hc : c = '-' ∨ c = '?' ∨ c = ':') : ∃ d more, cs = d :: more ∧ isSolid d := by
  cases cs with
  | nil => obtain rfl | rfl | rfl := hc <;> simp [allowsPlain, hasIndicator] at h
  | cons d more =>
    have hbreak := (tame_of_allowsPlain h).breaks d (by simp)
    refine ⟨d, more, rfl, isSolid_iff.mpr ⟨?_, hbreak⟩⟩
    rw [← Bool.not_eq_true]
    intro hblank
    obtain rfl | rfl | rfl := hc <;> simp [allowsPlain, hasIndicator, hblank] at h

lemma plainText_layout {cs : List Char} (h : allowsPlain cs) (indent column : Nat) :
    Layout indent (fun c x => isSolid c ∧ x = [c]) .word cs (plainText indent column cs) := by
  have hbreaks := (tame_of_allowsPlain h).breaks
  have hbreakSpace : hasBreakSpace cs = false := hasBreakSpace_of_any (by simpa using hbreaks)
  have hspaceBreak : hasSpaceBreak cs = false := hasSpaceBreak_of_any (by simpa using hbreaks)
  have hfeed : '\n' ∉ cs := fun hmem => by cases hbreaks _ hmem
  simp only [allowsPlain, Bool.not_eq_true', Bool.or_eq_false_iff, List.any_eq_false,
    Bool.not_eq_true] at h
  exact foldFlow_layout hfeed h.1.1.1.2 hbreakSpace hspaceBreak .word

lemma read_plainText {indent least : Nat} (hleast : 0 < least) (hindent : least ≤ indent)
    (column : Nat) {cs rest : List Char} (hne : cs ≠ []) (hplain : allowsPlain cs)
    (hrest : ∀ c ∈ rest.head?, isSolid c) (m : Mark) (hm : least ≤ m.column) :
    ∃ m', m'.column = 0 ∧ Plain.read false least ⟨m, plainText indent column cs ++ '\n' :: rest⟩ =
      .ok ⟨cs, true, ⟨m', rest⟩⟩ := by
  obtain ⟨c, more, rfl⟩ := List.exists_cons_of_ne_nil hne
  obtain ⟨hc, hindicator⟩ := head_of_allowsPlain hplain
  have hhash : c ≠ '#' := by
    rintro rfl
    cases hindicator
  have hlayout := (plainText_layout hplain indent column).line_of_word hc
  have hstarts : Starts least rest ⟨m, plainText indent column (c :: more) ++ '\n' :: rest⟩
      (c :: more) :=
    readsFrom_of_layout hlayout (tame_of_allowsPlain hplain) hleast hindent m hm
      (by simpa using hhash)
  rw [Plain.read, readWords_succ hstarts.start hstarts.word]
  exact hstarts.reads.inWord_eq hleast hrest [] (Nat.le_refl _)

end Plain

end HiToolchain.Yaml
