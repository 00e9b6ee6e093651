import HiToolchain.Proofs.FoldedText
import HiToolchain.Yaml.Block
import Mathlib.Data.List.DropRight

/-!
# Literal scalars are read as they were written

A literal scalar is read line by line, and the empty lines after each line are held back until
it is known whether another line follows. So the value, the break after its last line and the
breaks of the empty lines always make up what was read, and the sign in the header tells how many
of the breaks at the end belong to the string.
-/

namespace HiToolchain.Yaml

namespace Block

variable {indent : Nat} {rest : List Char}

/-- Breaks that are read as themselves. -/
def KeepsBreaks (es : List Char) : Prop := ∀ c ∈ es, isBreak c → breakText c = c ∧ c ≠ '\r'

/-- Lines that are all ended. -/
def Ended (es : List Char) : Prop := ∀ c ∈ es.getLast?, isBreak c

/-- A reader stands at the first of some lines, after its indentation, or after the last line. -/
inductive Stands (indent : Nat) (rest : List Char) : List Char → Input → Prop
  | line {c : Char} {es : List Char} {m : Mark} (hc : isBreak c = false) (hm : m.column = indent) :
      Stands indent rest (c :: es) ⟨m, literalLines indent false (c :: es) ++ rest⟩
  | after {m : Mark} (hm : m.column = 0) : Stands indent rest [] ⟨m, rest⟩

lemma readBreaksFrom_cons {limit furthest : Nat} {breaks text : List Char} {m : Mark} {c : Char}
    (hc : c ≠ '\r') : readBreaksFrom limit furthest breaks m (c :: text) =
      if (limit = 0 || m.column < limit) && c == ' ' then
        readBreaksFrom limit furthest breaks (m.forward 1) text
      else if (limit = 0 || m.column < limit) && c == '\t' then .error (.inText .blockTab m.line)
      else if isBreak c then
        readBreaksFrom limit (max furthest m.column) (breaks ++ [breakText c]) (m.nextLine 1) text
      else .ok ⟨breaks, max furthest m.column, ⟨m, c :: text⟩⟩ := by
  rw [readBreaksFrom]
  intro _ hreturn
  exact (hc hreturn).elim

lemma readBreaksFrom_of_solid {limit furthest : Nat} {breaks text : List Char} {m : Mark} {c : Char}
    (hc : isSolid c) : readBreaksFrom limit furthest breaks m (c :: text) =
      .ok ⟨breaks, max furthest m.column, ⟨m, c :: text⟩⟩ := by
  obtain ⟨hblank, hbreak⟩ := isSolid_iff.mp hc
  have hreturn : c ≠ '\r' := by
    rintro rfl
    cases hbreak
  simp only [isBlank, Bool.or_eq_false_iff] at hblank
  simp [readBreaksFrom_cons hreturn, hblank, hbreak]

lemma readBreaksFrom_of_break {limit furthest : Nat} {breaks text : List Char} {m : Mark} {c : Char}
    (hreturn : c ≠ '\r') (hc : isBreak c) : readBreaksFrom limit furthest breaks m (c :: text) =
      readBreaksFrom limit (max furthest m.column) (breaks ++ [breakText c]) (m.nextLine 1)
        text := by
  have hspace : (c == ' ') = false := by
    rw [beq_eq_false_iff_ne]
    rintro rfl
    cases hc
  have htab : (c == '\t') = false := by
    rw [beq_eq_false_iff_ne]
    rintro rfl
    cases hc
  simp [readBreaksFrom_cons hreturn, hspace, htab, hc]

/-- Indentation up to the limit is passed. -/
lemma readBreaksFrom_spaces {limit furthest : Nat} {breaks text : List Char} {m : Mark} (n : Nat)
    (hn : limit = 0 ∨ m.column + n ≤ limit) :
    readBreaksFrom limit furthest breaks m (List.replicate n ' ' ++ text) =
      readBreaksFrom limit furthest breaks (m.forward n) text := by
  induction n generalizing m with
  | zero => rfl
  | succ n ih =>
    have hinside : (decide (limit = 0) || decide (m.column < limit)) = true := by
      simp only [Bool.or_eq_true, decide_eq_true_eq]
      omega
    have hforward : (m.forward 1).forward n = m.forward (n + 1) := by
      simp [Mark.forward, Nat.add_assoc, Nat.add_comm 1]
    rw [List.replicate_succ, List.cons_append, readBreaksFrom_cons (by decide), hinside,
      if_pos (by decide), ih, hforward]
    simp only [Mark.forward]
    omega

lemma literalLines_cons {c : Char} (hc : isBreak c = false) (es : List Char) :
    literalLines indent false (c :: es) = c :: literalLines indent false es := by
  simp [literalLines, hc]

/-- Empty lines are passed up to the first character of a line, or to what follows the lines. -/
lemma readBreaks_literalLines (hindent : 0 < indent) (hrest : ∀ c ∈ rest.head?, isSolid c)
    {es : List Char} (hkeeps : KeepsBreaks es) (furthest : Nat) (breaks : List Char) {m : Mark}
    (hm : m.column = 0) : ∃ f i,
      readBreaksFrom indent furthest breaks m (literalLines indent true es ++ rest) =
        .ok ⟨breaks ++ es.takeWhile isBreak, f, i⟩ ∧
      Stands indent rest (es.dropWhile isBreak) i := by
  induction es generalizing furthest breaks m with
  | nil =>
    refine ⟨max furthest m.column, ⟨m, rest⟩, ?_, .after hm⟩
    rw [literalLines, List.nil_append, List.takeWhile_nil, List.append_nil]
    cases rest with
    | nil => rfl
    | cons c rest => exact readBreaksFrom_of_solid (hrest c rfl)
  | cons c es ih =>
    rw [literalLines]
    by_cases hc : isBreak c = true
    · obtain ⟨htext, hreturn⟩ := hkeeps c List.mem_cons_self hc
      obtain ⟨f, i, hread, hstands⟩ := ih (fun d hd => hkeeps d (List.mem_cons_of_mem c hd))
        (max furthest m.column) (breaks ++ [c]) (m := m.nextLine 1) rfl
      refine ⟨f, i, ?_, ?_⟩
      · rw [if_pos hc, List.cons_append, readBreaksFrom_of_break hreturn hc, htext, hread,
          List.takeWhile_cons_of_pos hc, List.append_assoc]
        rfl
      · rwa [List.dropWhile_cons_of_pos hc]
    · have hbreak : isBreak c = false := by simpa using hc
      have hcolumn : (m.forward indent).column = indent := by simp [Mark.forward, hm]
      refine ⟨max furthest indent, ⟨m.forward indent, literalLines indent false (c :: es) ++ rest⟩,
        ?_, ?_⟩
      · rw [if_neg hc, if_pos rfl, List.append_assoc, List.cons_append,
          readBreaksFrom_spaces indent (.inr (by omega)), List.takeWhile_cons_of_neg hc,
          readBreaksFrom_cons (by rintro rfl; exact hc rfl), hcolumn, literalLines_cons hbreak]
        simp [hbreak, hindent.ne']
      · rw [List.dropWhile_cons_of_neg hc]
        exact .line hbreak hcolumn

/-! ### Lines -/

lemma Ended.tail {c : Char} {es : List Char} (h : Ended (c :: es)) : Ended es := by
  intro d hd
  refine h d ?_
  rw [List.getLast?_cons, hd]
  rfl

lemma Ended.of_append {es es' : List Char} (h : Ended (es ++ es')) : Ended es' := by
  induction es with
  | nil => exact h
  | cons c es ih => exact ih h.tail

lemma Ended.dropWhile {es : List Char} (h : Ended es) : Ended (es.dropWhile isBreak) := by
  rw [← @List.takeWhile_append_dropWhile _ isBreak es] at h
  exact h.of_append

lemma KeepsBreaks.dropWhile {es : List Char} (h : KeepsBreaks es) :
    KeepsBreaks (es.dropWhile isBreak) :=
  fun d hd => h d ((List.dropWhile_sublist isBreak).mem hd)

/-- Lines that have begun are the rest of a line, its break, and the lines after it. -/
lemma exists_line {c : Char} {es : List Char} (hended : Ended (c :: es)) (hc : isBreak c = false) :
    ∃ line b es', es = line ++ b :: es' ∧ (∀ d ∈ c :: line, isBreak d = false) ∧ isBreak b := by
  induction es generalizing c with
  | nil =>
    have hbreak := hended c rfl
    rw [hc] at hbreak
    cases hbreak
  | cons d es ih =>
    by_cases hd : isBreak d = true
    · exact ⟨[], d, es, rfl, by simpa using hc, hd⟩
    · obtain ⟨line, b, es', rfl, hline, hb⟩ := ih hended.tail (by simpa using hd)
      exact ⟨d :: line, b, es', rfl, List.forall_mem_cons.mpr ⟨hc, hline⟩, hb⟩

lemma literalLines_line {line : List Char} (hline : ∀ c ∈ line, isBreak c = false) {b : Char}
    (hb : isBreak b) (es : List Char) :
    literalLines indent false (line ++ b :: es) = line ++ b :: literalLines indent true es := by
  induction line with
  | nil => rw [List.nil_append, literalLines, if_pos hb, List.nil_append]
  | cons c line ih =>
    obtain ⟨hc, hline⟩ := List.forall_mem_cons.mp hline
    rw [List.cons_append, literalLines_cons hc, ih hline, List.cons_append]

lemma readBreak_cons {b : Char} {m : Mark} {text : List Char} (hb : isBreak b)
    (hkept : breakText b = b ∧ b ≠ '\r') :
    (⟨m, b :: text⟩ : Input).readBreak = ([b], ⟨m.nextLine 1, text⟩) := by
  unfold Input.readBreak
  split
  · next heq => exact (hkept.2 (List.cons.inj heq).1).elim
  · next heq =>
    obtain ⟨rfl, rfl⟩ := List.cons.inj heq
    rw [if_pos hb, hkept.1]
  · next heq => cases heq

/-- A line is read with its break and the empty lines after it. -/
lemma readLines_line (chomp : Chomp) (fuel : Nat) (s : State) (breaks : List Char) {m : Mark}
    (hm : m.column = indent) {c : Char} {line : List Char}
    (hline : ∀ d ∈ c :: line, isBreak d = false) {b : Char} (hb : isBreak b)
    (hkept : breakText b = b ∧ b ≠ '\r') {text : List Char} {found : Breaks}
    (hfound : readBreaksFrom indent 0 [] ((m.forward (line.length + 1)).nextLine 1) text =
      .ok found) :
    readLines true chomp indent (fuel + 1) s breaks ⟨m, c :: line ++ b :: text⟩ =
      readLines true chomp indent fuel
        ⟨s.value ++ (s.lastBreak ++ breaks) ++ c :: line, [b], isBlank c⟩ found.breaks
        found.input := by
  have hpass : ∀ d ∈ c :: line, (!isBreak d) = true := by simpa using hline
  have hwhile : (⟨m, c :: line ++ b :: text⟩ : Input).readWhile (!isBreak ·) =
      (c :: line, ⟨m.forward (line.length + 1), b :: text⟩) := by
    rw [Input.readWhile, List.takeWhile_append_of_pos hpass, List.dropWhile_append_of_pos hpass,
      List.takeWhile_cons_of_neg (by simp [hb]), List.dropWhile_cons_of_neg (by simp [hb]),
      List.append_nil, List.length_cons]
  have hcolumn : (⟨m, c :: line ++ b :: text⟩ : Input).column = indent := hm
  have hread : readBreaks indent ⟨(m.forward (line.length + 1)).nextLine 1, text⟩ = .ok found :=
    hfound
  rw [readLines]
  simp only [List.cons_append] at hwhile hcolumn ⊢
  simp only [hcolumn, if_true, hwhile, readBreak_cons hb hkept, hread, separator]
  rfl

/-- The value ends with a line, and only breaks come after it. -/
structure Settled (s : State) (breaks : List Char) : Prop where
  breaks : ∀ c ∈ breaks, isBreak c
  value : (s.value = [] ∧ s.lastBreak = []) ∨
    ∃ u d b, s.value = u ++ [d] ∧ isBreak d = false ∧ s.lastBreak = [b] ∧ isBreak b

/-- All that stands in the lines is in the value and in the breaks after it. -/
lemma readLines_literalLines (hindent : 0 < indent) (hrest : ∀ c ∈ rest.head?, isSolid c)
    (chomp : Chomp) {es : List Char} (hkeeps : KeepsBreaks es) (hended : Ended es) {i : Input}
    (hstands : Stands indent rest es i) (s : State) (breaks : List Char) (hs : Settled s breaks)
    {fuel : Nat} (hfuel : es.length < fuel) : ∃ s' breaks' m,
      readLines true chomp indent fuel s breaks i =
        .ok (readLines.chomped chomp s' breaks', ⟨m, rest⟩) ∧ m.column = 0 ∧ Settled s' breaks' ∧
      s'.value ++ (s'.lastBreak ++ breaks') = s.value ++ (s.lastBreak ++ breaks) ++ es := by
  induction fuel generalizing es i s breaks with
  | zero => omega
  | succ fuel ih =>
    cases hstands with
    | @after m hm =>
      refine ⟨s, breaks, m, ?_, hm, hs, (List.append_nil _).symm⟩
      have hcolumn : ¬ (⟨m, rest⟩ : Input).column = indent := by
        rw [Input.column, hm]
        omega
      cases rest with
      | nil => rfl
      | cons c rest =>
        rw [readLines]
        exact if_neg hcolumn
    | @line c es m hc hm =>
      obtain ⟨line, b, es', rfl, hline, hb⟩ := exists_line hended hc
      have hkeeps' : KeepsBreaks es' := fun d hd => hkeeps d (by simp [hd])
      have hline_end : ((m.forward (line.length + 1)).nextLine 1).column = 0 := rfl
      obtain ⟨f, i', hread, hstands'⟩ :=
        readBreaks_literalLines hindent hrest hkeeps' 0 [] hline_end
      have hsplit : es'.takeWhile isBreak ++ es'.dropWhile isBreak = es' :=
        List.takeWhile_append_dropWhile
      have hsettled : Settled ⟨s.value ++ (s.lastBreak ++ breaks) ++ c :: line, [b], isBlank c⟩
          (es'.takeWhile isBreak) := by
        have hne : c :: line ≠ [] := by simp
        refine ⟨fun d hd => List.mem_takeWhile_imp hd,
          .inr ⟨s.value ++ (s.lastBreak ++ breaks) ++ (c :: line).dropLast,
            (c :: line).getLast hne, b, ?_, hline _ (List.getLast_mem hne), rfl, hb⟩⟩
        rw [List.append_assoc _ (c :: line).dropLast, List.dropLast_append_getLast]
      have hended' : Ended es' := hended.tail.of_append.tail
      have hfuel' : (es'.dropWhile isBreak).length < fuel := by
        have hle := (List.dropWhile_sublist isBreak (l := es')).length_le
        simp only [List.length_cons, List.length_append] at hfuel
        omega
      obtain ⟨s', breaks', m', hreads, hm', hs', hall⟩ :=
        ih hkeeps'.dropWhile hended'.dropWhile hstands' _ _ hsettled hfuel'
      refine ⟨s', breaks', m', ?_, hm', hs', ?_⟩
      · rw [← List.cons_append, literalLines_line hline hb, List.append_assoc,
          List.cons_append (a := b),
          readLines_line chomp fuel s breaks hm hline hb (hkeeps b (by simp) hb) hread]
        exact hreads
      · rw [hall]
        simp [hsplit]

/-- Lines are read from the breaks before the first of them on. -/
lemma readLines_after_breaks (hindent : 0 < indent) (hrest : ∀ c ∈ rest.head?, isSolid c)
    (chomp : Chomp) {es : List Char} (hkeeps : KeepsBreaks es) (hended : Ended es) {i : Input}
    (hstands : Stands indent rest (es.dropWhile isBreak) i) {fuel : Nat}
    (hfuel : es.length < fuel) : ∃ s breaks m,
      readLines true chomp indent fuel ⟨[], [], false⟩ (es.takeWhile isBreak) i =
        .ok (readLines.chomped chomp s breaks, ⟨m, rest⟩) ∧ m.column = 0 ∧ Settled s breaks ∧
      s.value ++ (s.lastBreak ++ breaks) = es := by
  have hlength := (List.dropWhile_sublist isBreak (l := es)).length_le
  have hsettled : Settled ⟨[], [], false⟩ (es.takeWhile isBreak) :=
    ⟨fun d hd => List.mem_takeWhile_imp hd, .inl ⟨rfl, rfl⟩⟩
  obtain ⟨s, breaks, m, hlines, hm, hs, hall⟩ := readLines_literalLines hindent hrest chomp
    hkeeps.dropWhile hended.dropWhile hstands _ _ hsettled (Nat.lt_of_le_of_lt hlength hfuel)
  refine ⟨s, breaks, m, hlines, hm, hs, ?_⟩
  rw [hall]
  exact List.takeWhile_append_dropWhile

/-! ### Headers and whole scalars -/

lemma rdropWhile_breaks {u bs : List Char} {d : Char} (hd : isBreak d = false)
    (hbs : ∀ c ∈ bs, isBreak c) : (u ++ [d] ++ bs).rdropWhile isBreak = u ++ [d] := by
  induction bs using List.reverseRecOn with
  | nil => rw [List.append_nil, List.rdropWhile_concat_neg _ _ _ (by simp [hd])]
  | append_singleton bs b ih =>
    rw [← List.append_assoc, List.rdropWhile_concat_pos _ _ _ (hbs b (by simp))]
    exact ih fun c hc => hbs c (by simp [hc])

/-- What a value and the breaks after it stand for. -/
lemma chomped_eq {s : State} {breaks : List Char} (hs : Settled s breaks) {u : List Char} {d : Char}
    (hd : isBreak d = false) {bs : List Char} (hbs : ∀ c ∈ bs, isBreak c)
    (h : s.value ++ (s.lastBreak ++ breaks) = u ++ [d] ++ bs) :
    s.value = u ++ [d] ∧ s.lastBreak.length = 1 ∧ s.lastBreak ++ breaks = bs := by
  obtain ⟨hvalue, hlast⟩ | ⟨u', d', b, hvalue, hd', hlast, hb⟩ := hs.value
  · have hmem : d ∈ breaks := by
      rw [hvalue, hlast, List.nil_append, List.nil_append] at h
      simp [h]
    have hbreak := hs.breaks d hmem
    rw [hd] at hbreak
    cases hbreak
  · have hall : ∀ c ∈ s.lastBreak ++ breaks, isBreak c := by
      rw [hlast]
      exact List.forall_mem_cons.mpr ⟨hb, hs.breaks⟩
    have hsame : s.value = u ++ [d] := by
      rw [← rdropWhile_breaks hd hbs, ← h, hvalue, rdropWhile_breaks hd' hall]
    rw [hsame] at h
    exact ⟨hsame, by rw [hlast]; rfl, List.append_cancel_left h⟩

/-- The sign of a header and what it says of a string. -/
inductive Signed (cs : List Char) : List Char → Chomp → Prop
  | strip {u : List Char} {d : Char} (h : cs = u ++ [d]) (hd : isBreak d = false) :
      Signed cs ['-'] .strip
  | clip {u : List Char} {d c : Char} (h : cs = u ++ [d, c]) (hd : isBreak d = false)
      (hc : isBreak c) : Signed cs [] .clip
  | keep {u : List Char} {c : Char} (h : cs = u ++ [c]) (hc : isBreak c) : Signed cs ['+'] .keep

/-- The sign that the end of a string asks for. -/
def endSign (cs : List Char) : List Char :=
  match cs.reverse with
  | [] => ['-']
  | [c] => if isBreak c then ['+'] else ['-']
  | c :: d :: _ => if !isBreak c then ['-'] else if isBreak d then ['+'] else []

lemma signed_endSign {cs : List Char} (hne : cs ≠ []) : ∃ chomp, Signed cs (endSign cs) chomp := by
  induction cs using List.reverseRecOn with
  | nil => exact (hne rfl).elim
  | append_singleton u c _ =>
    by_cases hc : isBreak c = true
    · induction u using List.reverseRecOn with
      | nil => exact ⟨.keep, by simpa [endSign, hc] using Signed.keep (u := []) rfl hc⟩
      | append_singleton v d _ =>
        by_cases hd : isBreak d = true
        · exact ⟨.keep, by simpa [endSign, hc, hd] using Signed.keep (u := v ++ [d]) (by simp) hc⟩
        · have hd : isBreak d = false := by simpa using hd
          exact ⟨.clip, by simpa [endSign, hc, hd] using Signed.clip (u := v) rfl hd hc⟩
    · have hc : isBreak c = false := by simpa using hc
      refine ⟨.strip, ?_⟩
      have hsign : endSign (u ++ [c]) = ['-'] := by
        rw [endSign, List.reverse_append]
        cases u.reverse <;> simp [hc]
      rw [hsign]
      exact .strip rfl hc

lemma literalHeader_signed (c : Char) (more : List Char) : ∃ hint chomp,
    literalHeader (c :: more) = '|' :: (hint ++ endSign (c :: more)) ∧
      Signed (c :: more) (endSign (c :: more)) chomp ∧
      (hint = ['2'] ∨ hint = [] ∧ c ≠ ' ' ∧ isBreak c = false) := by
  obtain ⟨chomp, hchomp⟩ := signed_endSign (List.cons_ne_nil c more)
  refine ⟨_, chomp, rfl, hchomp, ?_⟩
  dsimp only
  split
  · exact .inl rfl
  · next h => exact .inr ⟨rfl, by simpa using h⟩

lemma readHeader_signed {cs hint sign : List Char} {chomp : Chomp} (hsign : Signed cs sign chomp)
    (hhint : hint = ['2'] ∨ hint = []) (m : Mark) (text : List Char) :
    ∃ m' n, m'.column = 0 ∧ n = 2 * hint.length ∧
      readHeader ⟨m, hint ++ sign ++ '\n' :: text⟩ = .ok (⟨chomp, n⟩, ⟨m', text⟩) := by
  obtain rfl | rfl := hhint
  · cases hsign with
    | strip => exact ⟨_, _, rfl, rfl, rfl⟩
    | clip => exact ⟨_, _, rfl, rfl, rfl⟩
    | keep => exact ⟨_, _, rfl, rfl, rfl⟩
  · cases hsign with
    | strip => exact ⟨_, _, rfl, rfl, rfl⟩
    | clip => exact ⟨_, _, rfl, rfl, rfl⟩
    | keep => exact ⟨_, _, rfl, rfl, rfl⟩

lemma length_le_literalLines (lineStart : Bool) (cs : List Char) :
    cs.length ≤ (literalLines indent lineStart cs).length := by
  induction cs generalizing lineStart with
  | nil => exact Nat.zero_le _
  | cons c cs ih =>
    have htrue := ih true
    have hfalse := ih false
    rw [literalLines]
    split
    · simpa using htrue
    · simp only [List.length_append, List.length_cons]
      omega

/-- How a string is read back from its lines, whichever sign it has. -/
lemma chomped_endedLines {cs : List Char} {sign : List Char} {chomp : Chomp}
    (hsign : Signed cs sign chomp) {s : State} {breaks : List Char} (hs : Settled s breaks)
    (h : s.value ++ (s.lastBreak ++ breaks) = endedLines cs) :
    readLines.chomped chomp s breaks = cs := by
  cases hsign with
  | @strip u d hcs hd =>
    subst hcs
    have hended : endedLines (u ++ [d]) = u ++ [d] ++ ['\n'] := by simp [endedLines, hd]
    rw [hended] at h
    exact (chomped_eq hs hd (by simp [isBreak]) h).1
  | @clip u d c hcs hd hc =>
    subst hcs
    have hended : endedLines (u ++ [d, c]) = u ++ [d] ++ [c] := by simp [endedLines, hc]
    rw [hended] at h
    obtain ⟨hvalue, hlength, hbreaks⟩ := chomped_eq hs hd (by simpa using hc) h
    obtain ⟨b, hb⟩ := List.length_eq_one_iff.mp hlength
    rw [hb, List.singleton_append, List.cons.injEq] at hbreaks
    rw [readLines.chomped, hvalue, hb, hbreaks.1, List.append_assoc]
    rfl
  | @keep u c hcs hc =>
    subst hcs
    have hended : endedLines (u ++ [c]) = u ++ [c] := by simp [endedLines, hc]
    rw [hended] at h
    rw [readLines.chomped, List.append_assoc, h]

lemma keepsBreaks_endedLines {cs : List Char} (h : ∀ c ∈ cs, isSpecial c = false) :
    KeepsBreaks (endedLines cs) := by
  have hkept : KeepsBreaks cs := by
    intro c hc hbreak
    by_cases hfeed : c = '\n'
    · subst hfeed
      exact ⟨rfl, by decide⟩
    · obtain ⟨-, -, htext, hreturn, -⟩ :=
        isKeptBreak_spec (isKeptBreak_of_not_special (h c hc) hbreak hfeed)
      exact ⟨htext, hreturn⟩
  unfold endedLines
  split
  · exact hkept
  · intro c hc hbreak
    obtain hc | hc := List.mem_append.mp hc
    · exact hkept c hc hbreak
    · obtain rfl := List.mem_singleton.mp hc
      exact ⟨rfl, by decide⟩

lemma ended_endedLines (cs : List Char) : Ended (endedLines cs) := by
  unfold endedLines
  split
  · next h =>
    intro c hc
    simpa [Option.mem_def.mp hc] using h
  · intro c hc
    obtain rfl : '\n' = c := by simpa using hc
    rfl

lemma literalText_ended (cs : List Char) :
    literalText indent cs ++ (if (cs.getLast?).any isBreak then [] else ['\n']) =
      literalHeader cs ++ '\n' :: literalLines indent true (endedLines cs) := by
  rw [literalText, List.append_assoc, List.cons_append, ← literalLines_ended]

/-- Before the first line its indentation is found, or the header has told it. -/
lemma readBreaks_first {c : Char} {es rest hint : List Char}
    (hrest : ∀ d ∈ rest.head?, isSolid d) (hkeeps : KeepsBreaks (c :: es)) {m : Mark}
    (hm : m.column = 0) (hhint : hint = ['2'] ∨ hint = [] ∧ isSolid c) : ∃ found,
      readBreaks (2 * hint.length) ⟨m, literalLines 2 true (c :: es) ++ rest⟩ = .ok found ∧
      (if 2 * hint.length = 0 then max found.furthest 1 else 2 * hint.length) = 2 ∧
      found.breaks = (c :: es).takeWhile isBreak ∧
      Stands 2 rest ((c :: es).dropWhile isBreak) found.input := by
  obtain rfl | ⟨rfl, hc⟩ := hhint
  · obtain ⟨f, i, hread, hstands⟩ := readBreaks_literalLines Nat.two_pos hrest hkeeps 0 [] hm
    exact ⟨_, hread, rfl, rfl, hstands⟩
  · have hbreak := (isSolid_iff.mp hc).2
    have hlines : literalLines 2 true (c :: es) =
        List.replicate 2 ' ' ++ literalLines 2 false (c :: es) := by
      simp [literalLines, hbreak]
    have hcolumn : (m.forward 2).column = 2 := by simp [Mark.forward, hm]
    refine ⟨⟨[], 2, ⟨m.forward 2, literalLines 2 false (c :: es) ++ rest⟩⟩, ?_, rfl, ?_, ?_⟩
    · rw [readBreaks, hlines, List.append_assoc]
      refine (readBreaksFrom_spaces 2 (.inl rfl)).trans ?_
      rw [literalLines_cons hbreak, List.cons_append, readBreaksFrom_of_solid hc, hcolumn]
      rfl
    · rw [List.takeWhile_cons_of_neg (by simp [hbreak])]
    · rw [List.dropWhile_cons_of_neg (by simp [hbreak])]
      exact .line hbreak hcolumn

/-- A literal scalar at the outermost indentation. -/
lemma read_literalText {cs rest : List Char} (hliteral : allowsLiteral cs)
    (hrest : ∀ c ∈ rest.head?, isSolid c) (m : Mark) :
    ∃ m', m'.column = 0 ∧ read true 0 ⟨m, literalText 2 cs ++
      (if (cs.getLast?).any isBreak then [] else ['\n']) ++ rest⟩ = .ok (cs, ⟨m', rest⟩) := by
  simp only [allowsLiteral, Bool.not_eq_true', Bool.or_eq_false_iff, List.any_eq_false,
    Bool.not_eq_true] at hliteral
  obtain ⟨⟨⟨hne, -⟩, -⟩, hspecial⟩ := hliteral
  cases cs with
  | nil => cases hne
  | cons c more =>
    obtain ⟨hint, chomp, hheader, hsign, hhint⟩ := literalHeader_signed c more
    have hfirst : hint = ['2'] ∨ hint = [] ∧ isSolid c :=
      hhint.imp_right fun ⟨hnil, hspace, hbreak⟩ =>
        ⟨hnil, isSolid_of_not_special (hspecial c List.mem_cons_self) hspace hbreak⟩
    have hkeeps := keepsBreaks_endedLines hspecial
    have hended := ended_endedLines (c :: more)
    obtain ⟨es, hes⟩ : ∃ es, endedLines (c :: more) = c :: es := by
      unfold endedLines
      split
      · exact ⟨more, rfl⟩
      · exact ⟨more ++ ['\n'], rfl⟩
    have hchomped := fun s breaks => @chomped_endedLines (c :: more) _ chomp hsign s breaks
    have htext : literalText 2 (c :: more) ++
        (if ((c :: more).getLast?).any isBreak then [] else ['\n']) ++ rest =
          '|' :: (hint ++ endSign (c :: more) ++
            '\n' :: (literalLines 2 true (c :: es) ++ rest)) := by
      rw [literalText_ended, hes, hheader]
      simp
    rw [hes] at hkeeps hended hchomped
    obtain ⟨m₁, n, hm₁, rfl, hread⟩ := readHeader_signed hsign (hhint.imp_right And.left)
      (m.forward 1) (literalLines 2 true (c :: es) ++ rest)
    obtain ⟨found, hfound, hindent, hbreaks, hstands⟩ := readBreaks_first hrest hkeeps hm₁ hfirst
    have hfuel : (c :: es).length < (literalLines 2 true (c :: es) ++ rest).length + 1 := by
      have hlines := @length_le_literalLines 2 true (c :: es)
      rw [List.length_append]
      omega
    obtain ⟨s, breaks, m', hlines, hm', hs, hall⟩ :=
      readLines_after_breaks Nat.two_pos hrest chomp hkeeps hended hstands hfuel
    refine ⟨m', hm', ?_⟩
    have hskip : ∀ text, (⟨m, '|' :: text⟩ : Input).skip 1 = ⟨m.forward 1, text⟩ := fun _ => rfl
    have hfixed : (if 2 * hint.length = 0 then 0 else (max (0 : Int) 0).toNat + 2 * hint.length) =
        2 * hint.length := by
      split <;> simp_all
    have hhere : (if 2 * hint.length = 0 then max found.furthest (max ((0 : Int) + 1).toNat 1)
        else 2 * hint.length) = 2 := hindent
    rw [htext, read, hskip, hread, ok_bind]
    dsimp only
    rw [hfixed, hfound, ok_bind, hhere, hbreaks, hlines, hchomped s breaks hs hall]

end Block

end HiToolchain.Yaml
