import HiToolchain.Proofs.ScalarTexts
import HiToolchain.Proofs.SingleAssignment
import HiToolchain.Yaml.Plain

/-!
# Folded text

Plain scalars and scalars in quotes are folded at spaces. A `Layout` says what may stand for a
string once it is folded, and both writers lay strings out that way. Readers meet what was folded
as gaps between words; `Gap.Leads` follows such a gap character by character.
-/

namespace HiToolchain.Yaml

/-- Characters that belong to no gap. -/
def isSolid (c : Char) : Bool := !(isBlank c || isBreak c)

lemma isSolid_iff {c : Char} : isSolid c ↔ isBlank c = false ∧ isBreak c = false := by
  simp [isSolid]

/-- The two breaks that are read as themselves. -/
def isKeptBreak (c : Char) : Bool := c.toNat == 0x2028 || c.toNat == 0x2029

lemma isKeptBreak_spec {c : Char} (h : isKeptBreak c) :
    isBlank c = false ∧ isBreak c ∧ breakText c = c ∧ c ≠ '\r' ∧ c ≠ '\n' ∧ isAllowed c := by
  have hof : ∀ n, c.toNat = n → c = Char.ofNat n := by
    rintro n rfl
    exact c.ofNat_toNat.symm
  simp only [isKeptBreak, Bool.or_eq_true, beq_iff_eq] at h
  obtain h | h := h
  · rw [hof _ h]
    decide
  · rw [hof _ h]
    decide

/-- What stands at a place of a folded text: a word, spaces after a word, an indented line, or
breaks that are kept. -/
inductive Place where
  | word
  | blanks
  | line
  | broken

/-- The text is laid out for the characters, from a place on. A space may be written as a new
line, if something to see stands on both sides of it. -/
inductive Layout (indent : Nat) (piece : Char → List Char → Prop) :
    Place → List Char → List Char → Prop
  | nil {p : Place} (hp : p ≠ .line) : Layout indent piece p [] []
  | char {p : Place} {c : Char} {x cs text : List Char} (hp : p ≠ .broken) (hx : piece c x)
      (hrest : Layout indent piece .word cs text) : Layout indent piece p (c :: cs) (x ++ text)
  | space {p : Place} {cs text : List Char} (hp : p = .word ∨ p = .blanks)
      (hrest : Layout indent piece .blanks cs text) :
      Layout indent piece p (' ' :: cs) (' ' :: text)
  | fold {cs text : List Char} (hrest : Layout indent piece .line cs text) :
      Layout indent piece .word (' ' :: cs) (newLine indent ++ text)
  | kept {p : Place} {c : Char} {cs text : List Char} (hp : p = .word ∨ p = .broken)
      (hc : isKeptBreak c) (hrest : Layout indent piece .broken cs text) :
      Layout indent piece p (c :: cs) (c :: text)
  | indented {cs text : List Char} (hrest : Layout indent piece .line cs text) :
      Layout indent piece .broken cs (List.replicate indent ' ' ++ text)

section

variable {indent : Nat} {piece : Char → List Char → Prop}

/-- A line starts with the piece of its first character. -/
lemma Layout.exists_of_line {cs text : List Char} (h : Layout indent piece .line cs text) :
    ∃ c x more, c ∈ cs.head? ∧ piece c x ∧ text = x ++ more := by
  cases h with
  | nil hp => exact (hp rfl).elim
  | char hp hx hrest => exact ⟨_, _, _, rfl, hx, rfl⟩
  | space hp hrest => simp at hp
  | kept hp hc hrest => simp at hp

lemma Layout.line_of_word {c : Char} {cs text : List Char} (hc : isSolid c)
    (h : Layout indent piece .word (c :: cs) text) : Layout indent piece .line (c :: cs) text := by
  cases h with
  | char hp hx hrest => exact .char (by simp) hx hrest
  | space hp hrest => cases hc
  | fold hrest => cases hc
  | kept hp hkept hrest =>
    have hbreak := (isSolid_iff.mp hc).2
    rw [(isKeptBreak_spec hkept).2.1] at hbreak
    cases hbreak

lemma Layout.allowed {p : Place} {cs text : List Char} (h : Layout indent piece p cs text)
    (hpiece : ∀ c ∈ cs, ∀ x, piece c x → ∀ d ∈ x, isAllowed d) : ∀ d ∈ text, isAllowed d := by
  have hspaces : ∀ n, ∀ d ∈ List.replicate n ' ', isAllowed d := by
    intro n d hd
    rw [List.eq_of_mem_replicate hd]
    decide
  induction h with
  | nil hp => simp
  | char hp hx hrest ih =>
    obtain ⟨hc, hcs⟩ := List.forall_mem_cons.mp hpiece
    exact List.forall_mem_append.mpr ⟨hc _ hx, ih hcs⟩
  | space hp hrest ih =>
    exact List.forall_mem_cons.mpr ⟨by decide, ih (List.forall_mem_cons.mp hpiece).2⟩
  | fold hrest ih =>
    refine List.forall_mem_append.mpr ⟨List.forall_mem_cons.mpr ⟨by decide, hspaces indent⟩, ?_⟩
    exact ih (List.forall_mem_cons.mp hpiece).2
  | kept hp hc hrest ih =>
    refine List.forall_mem_cons.mpr ⟨(isKeptBreak_spec hc).2.2.2.2.2, ?_⟩
    exact ih (List.forall_mem_cons.mp hpiece).2
  | indented hrest ih => exact List.forall_mem_append.mpr ⟨hspaces indent, ih hpiece⟩

end

/-! ### What the writers lay out -/

lemma isKeptBreak_of_not_special {c : Char} (hspecial : isSpecial c = false) (hbreak : isBreak c)
    (hfeed : c ≠ '\n') : isKeptBreak c := by
  have hreturn : c ≠ '\r' := by
    rintro rfl
    cases hspecial
  simp only [isSpecial, isPlainChar, Bool.not_eq_false', Bool.or_eq_true, Bool.and_eq_true,
    beq_iff_eq, decide_eq_true_eq] at hspecial
  simp only [isBreak, Bool.or_eq_true, beq_iff_eq, hfeed, hreturn, false_or] at hbreak
  simp only [isKeptBreak, Bool.or_eq_true, beq_iff_eq]
  omega

lemma isSolid_of_not_special {c : Char} (hspecial : isSpecial c = false) (hspace : c ≠ ' ')
    (hbreak : isBreak c = false) : isSolid c := by
  have htab : c ≠ '\t' := by
    rintro rfl
    cases hspecial
  simp [isSolid, isBlank, hspace, htab, hbreak]

/-- What is still to be written and the marks of a writer at a place. -/
inductive Marked : Place → (column : Nat) → (afterSpace afterBreak : Bool) → List Char → Prop
  | word {column : Nat} {cs : List Char} : Marked .word column false false cs
  | blanks {column : Nat} {cs : List Char} (h : ∀ c ∈ cs.head?, isBreak c = false) :
      Marked .blanks column true false cs
  | line {column : Nat} {c : Char} {cs : List Char} (hspace : c ≠ ' ')
      (hbreak : isBreak c = false) :
      Marked .line column true false (c :: cs)
  | broken {afterSpace : Bool} {cs : List Char} (h : cs.head? ≠ some ' ') :
      Marked .broken 0 afterSpace true cs

lemma hasSpaceBreak_cons {c : Char} {rest : List Char} (h : hasSpaceBreak (c :: rest) = false) :
    hasSpaceBreak rest = false ∧ (c = ' ' → ∀ d ∈ rest.head?, isBreak d = false) := by
  cases rest with
  | nil => exact ⟨rfl, by simp⟩
  | cons d rest =>
    simp only [hasSpaceBreak, anyAdjacent, Bool.or_eq_false_iff] at h
    refine ⟨h.2, ?_⟩
    rintro rfl _ ⟨rfl⟩
    simpa using h.1

lemma hasSpaceBreak_of_any {cs : List Char} (h : cs.any isBreak = false) :
    hasSpaceBreak cs = false := by
  induction cs with
  | nil => rfl
  | cons c cs ih =>
    rw [List.any_cons, Bool.or_eq_false_iff] at h
    cases cs with
    | nil => rfl
    | cons d cs =>
      have hrest : anyAdjacent _ (d :: cs) = false := ih h.2
      rw [List.any_cons, Bool.or_eq_false_iff] at h
      rw [hasSpaceBreak, anyAdjacent, h.2.1, hrest, Bool.and_false, Bool.or_false]

lemma foldFlow_layout {indent : Nat} {write : Char → List Char} {cs : List Char}
    (hfeed : '\n' ∉ cs) (hspecial : ∀ c ∈ cs, isSpecial c = false)
    (hbreakSpace : hasBreakSpace cs = false) (hspaceBreak : hasSpaceBreak cs = false) {p : Place}
    {column : Nat} {first afterSpace afterBreak : Bool}
    (hmarked : Marked p column afterSpace afterBreak cs) :
    Layout indent (fun c x => isSolid c ∧ x = write c) p cs
      (foldFlow indent write column first afterSpace afterBreak cs) := by
  induction cs generalizing p column first afterSpace afterBreak with
  | nil =>
    refine .nil ?_
    rintro rfl
    cases hmarked
  | cons c rest ih =>
    obtain ⟨hne, hrestFeed⟩ := List.ne_and_not_mem_of_not_mem_cons hfeed
    obtain ⟨hc, hrestSpecial⟩ := List.forall_mem_cons.mp hspecial
    obtain ⟨hrestBreakSpace, hnoSpace⟩ := hasBreakSpace_cons hbreakSpace
    obtain ⟨hrestSpaceBreak, hnoBreak⟩ := hasSpaceBreak_cons hspaceBreak
    have ih := @ih hrestFeed hrestSpecial hrestBreakSpace hrestSpaceBreak
    rw [foldFlow]
    by_cases hspace : c = ' '
    · subst hspace
      rw [if_pos (by decide)]
      have hplace : (p = .word ∨ p = .blanks) ∧ afterBreak = false ∧
          (afterSpace = false → p = .word) := by
        cases hmarked with
        | word => simp
        | blanks h => simp
        | line hspace hbreak => exact (hspace rfl).elim
        | broken h => exact (h rfl).elim
      obtain ⟨hp, rfl, hword⟩ := hplace
      dsimp only
      split
      · next hfolds =>
        simp only [Bool.and_eq_true, Bool.not_eq_true', bne_iff_ne, ne_eq] at hfolds
        obtain ⟨⟨⟨⟨hafter, -⟩, -⟩, hnonempty⟩, hnext⟩ := hfolds
        rw [hword hafter]
        cases rest with
        | nil => cases hnonempty
        | cons d rest =>
          have hd : d ≠ ' ' := fun h => hnext (by rw [h]; rfl)
          exact .fold (ih (.line hd (hnoBreak rfl d rfl)))
      · exact .space hp (ih (.blanks (hnoBreak rfl)))
    · rw [if_neg (by simpa using hspace)]
      by_cases hbreak : isBreak c = true
      · rw [if_pos hbreak]
        have hp : p = .word ∨ p = .broken := by
          cases hmarked with
          | word => exact .inl rfl
          | blanks h => simp [h c rfl] at hbreak
          | line hspace h => simp [h] at hbreak
          | broken h => exact .inr rfl
        exact .kept hp (isKeptBreak_of_not_special hc hbreak (Ne.symm hne))
          (ih (.broken (hnoSpace hbreak)))
      · have hsolid := isSolid_of_not_special hc hspace (by simpa using hbreak)
        rw [if_neg hbreak]
        dsimp only
        cases hmarked with
        | broken h =>
          rw [if_pos rfl, List.append_assoc]
          exact .indented (.char (by simp) ⟨hsolid, rfl⟩ (ih .word))
        | word => exact .char (by simp) ⟨hsolid, rfl⟩ (ih .word)
        | blanks h => exact .char (by simp) ⟨hsolid, rfl⟩ (ih .word)
        | line hspace h => exact .char (by simp) ⟨hsolid, rfl⟩ (ih .word)

/-- What stands for a character other than a space between double quotes, or for a space at the
start of a line. -/
inductive QuotedPiece : Char → List Char → Prop
  | char {c : Char} (hsolid : isSolid c) (h : needsEscape c = false) : QuotedPiece c [c]
  | escaped {c : Char} {x : List Char} (h : Escapes c x) (hallowed : ∀ d ∈ x, isAllowed d) :
      QuotedPiece c x

lemma isAllowed_upperHex (width n : Nat) : ∀ d ∈ upperHex width n, isAllowed d := by
  have hdigit : ∀ d : Fin 16, isAllowed d.val.digitChar.toUpper := by decide
  rw [upperHex_eq]
  intro d hd
  obtain hd | hd := List.mem_append.mp hd
  · rw [List.eq_of_mem_replicate hd]
    decide
  · obtain ⟨e, he, rfl⟩ := List.mem_map.mp hd
    obtain ⟨k, hk, rfl⟩ := Ir.exists_digitChar_of_mem_toDigits n e he
    exact hdigit ⟨k, hk⟩

lemma isAllowed_escape (c : Char) : ∀ d ∈ escape c, isAllowed d := by
  have hletter : ∀ letter, escapeLetter? c = some letter → isAllowed letter := by
    intro letter h
    unfold escapeLetter? at h
    split at h
    all_goals cases h
    all_goals decide
  have hcode : ∀ letter width, isAllowed letter →
      ∀ d ∈ '\\' :: letter :: upperHex width c.toNat, isAllowed d := by
    intro letter width h
    exact List.forall_mem_cons.mpr ⟨by decide, List.forall_mem_cons.mpr
      ⟨h, isAllowed_upperHex width c.toNat⟩⟩
  unfold escape
  split
  · next letter h => simpa using ⟨by decide, hletter letter h⟩
  · dsimp only
    split_ifs
    · exact hcode 'x' 2 (by decide)
    · exact hcode 'u' 4 (by decide)
    · exact hcode 'U' 8 (by decide)

lemma quotedPiece_of_not_needsEscape {c : Char} (h : needsEscape c = false) (hspace : c ≠ ' ') :
    QuotedPiece c [c] := by
  have hparts := h
  simp only [needsEscape, Bool.or_eq_false_iff] at hparts
  exact .char (isSolid_of_not_special hparts.1.1.1 hspace hparts.1.1.2) h

lemma quotedPiece_space : QuotedPiece ' ' ['\\', ' '] :=
  .escaped ⟨' ', [], rfl, .inl ⟨rfl, rfl⟩⟩ (List.all_eq_true.mp (by decide))

/-- A place in double quotes and the marks of the writer there. -/
inductive QuotedMarked : Place → (afterSpace : Bool) → List Char → Prop
  | word {afterSpace : Bool} {cs : List Char} : QuotedMarked .word afterSpace cs
  | blanks {cs : List Char} : QuotedMarked .blanks true cs
  | line {afterSpace : Bool} {c : Char} {cs : List Char} (hspace : c ≠ ' ') :
      QuotedMarked .line afterSpace (c :: cs)

/-- A space at the start of a line has a backslash before it. -/
lemma foldDouble_layout (indent : Nat) (cs : List Char) (column : Nat) (first afterSpace : Bool) :
    (∀ p, QuotedMarked p afterSpace cs →
      Layout indent QuotedPiece p cs (foldDouble indent column first afterSpace cs)) ∧
    (cs.head? = some ' ' →
      Layout indent QuotedPiece .line cs ('\\' :: foldDouble indent column first true cs)) := by
  induction cs generalizing column first afterSpace with
  | nil =>
    refine ⟨fun p hp => .nil ?_, by simp⟩
    rintro rfl
    cases hp
  | cons c rest ih =>
    refine ⟨fun p hp => ?_, fun hhead => ?_⟩
    · have hbroken : p ≠ .broken := by
        rintro rfl
        cases hp
      rw [foldDouble]
      split
      · exact .char hbroken (.escaped (escapes_escape c) (isAllowed_escape c))
          ((ih _ _ _).1 _ .word)
      · next hescape =>
        have hc : needsEscape c = false := by simpa using hescape
        by_cases hspace : c = ' '
        · subst hspace
          rw [if_pos (by decide)]
          have hplace : (p = .word ∨ p = .blanks) ∧ (afterSpace = false → p = .word) := by
            cases hp with
            | word => simp
            | blanks => simp
            | line hspace => exact (hspace rfl).elim
          split
          · next hfolds =>
            simp only [Bool.and_eq_true, Bool.not_eq_true'] at hfolds
            rw [hplace.2 hfolds.1.1.1, List.append_assoc]
            refine .fold ?_
            by_cases hnext : rest.head? = some ' '
            · rw [if_pos (by simpa using hnext)]
              exact (ih _ _ true).2 hnext
            · rw [if_neg (by simpa using hnext)]
              cases rest with
              | nil => simp at hfolds
              | cons d rest => exact (ih _ _ _).1 _ (.line fun h => hnext (by rw [h]; rfl))
          · exact .space hplace.1 ((ih _ _ _).1 _ .blanks)
        · rw [if_neg (by simpa using hspace)]
          exact .char hbroken (quotedPiece_of_not_needsEscape hc hspace) ((ih _ _ _).1 _ .word)
    · obtain rfl : c = ' ' := Option.some.inj hhead
      exact .char (by simp) quotedPiece_space ((ih (column + 1) false true).1 _ .word)

/-! ### Gaps -/

namespace Gap

variable {least : Nat} {Start : Input → List Char → Prop} {g : Gap} {m : Mark} {c : Char}
  {rest cs : List Char}

lemma readFrom_cons (hc : c ≠ '\r') : readFrom least g m (c :: rest) =
    if isBlank c then
      if g.broken && c == '\t' && m.column < least then .error (.inText .plainTab m.line)
      else readFrom least (g.addBlank c) (m.forward 1) rest
    else if isBreak c then readFrom least (g.addBreak (breakText c)) (m.nextLine 1) rest
    else .ok (g, ⟨m, c :: rest⟩) := by
  rw [readFrom]
  intro _ hreturn
  exact (hc hreturn).elim

@[simp] lemma addBlank_broken (g : Gap) (c : Char) : (g.addBlank c).broken = g.broken := by
  unfold addBlank
  split <;> rfl

@[simp] lemma addBreak_broken (g : Gap) (c : Char) : (g.addBreak c).broken = true := by
  unfold addBreak
  split
  · assumption
  · rfl

lemma text_addBlank (h : g.broken = false) : (g.addBlank c).text = g.text ++ [c] := by
  simp [text, addBlank, h]

lemma text_addBreak (h : g.broken = true) (hfirst : g.first ≠ ['\n']) :
    (g.addBreak c).text = g.text ++ [c] := by
  simp [text, addBreak, h, hfirst]

lemma length_readFrom_le {text : List Char} {g' : Gap} {i : Input}
    (h : readFrom least g m text = .ok (g', i)) : i.rest.length ≤ text.length := by
  fun_induction readFrom least g m text with
  | case1 g m => cases h; rfl
  | case2 g m rest ih =>
    have hrest := ih h
    simp only [List.length_cons]
    omega
  | case3 => cases h
  | case4 g m c rest _ _ _ ih =>
    have hrest := ih h
    simp only [List.length_cons]
    omega
  | case5 g m c rest _ _ _ ih =>
    have hrest := ih h
    simp only [List.length_cons]
    omega
  | case6 => cases h; rfl

lemma length_readFrom_lt {i : Input} {g' : Gap} (hreturn : c ≠ '\r') (hc : isSolid c = false)
    (h : readFrom least g m (c :: rest) = .ok (g', i)) : i.rest.length < (c :: rest).length := by
  rw [readFrom_cons hreturn] at h
  rw [List.length_cons, Nat.lt_succ_iff]
  split_ifs at h with hblank htab hbreak
  · exact length_readFrom_le h
  · exact length_readFrom_le h
  · simp [isSolid, hblank, hbreak] at hc

lemma readFrom_of_solid (hc : isSolid c) :
    readFrom least g m (c :: rest) = .ok (g, ⟨m, c :: rest⟩) := by
  obtain ⟨hblank, hbreak⟩ := isSolid_iff.mp hc
  have hreturn : c ≠ '\r' := by
    rintro rfl
    cases hbreak
  simp [readFrom_cons hreturn, hblank, hbreak]

/-- The end of a line before one that is not indented. -/
lemma read_lineEnd (hrest : ∀ c ∈ rest.head?, isSolid c) :
    empty.read least ⟨m, '\n' :: rest⟩ = .ok (⟨[], true, ['\n'], []⟩, ⟨m.nextLine 1, rest⟩) := by
  rw [read, readFrom_cons (by decide), if_neg (by decide), if_pos (by decide)]
  cases rest with
  | nil => rfl
  | cons c rest => exact readFrom_of_solid (hrest c rfl)

/-- Reading a gap on leads to a start, and the two of them give the characters. -/
def Leads (least : Nat) (Start : Input → List Char → Prop) (g : Gap) (i : Input)
    (cs : List Char) : Prop :=
  ∃ g' i' cs', g.read least i = .ok (g', i') ∧ Start i' cs' ∧ g'.text ++ cs' = cs

lemma Leads.stop (hc : isSolid c) (h : Start ⟨m, c :: rest⟩ cs) :
    Leads least Start g ⟨m, c :: rest⟩ (g.text ++ cs) := by
  exact ⟨g, _, cs, readFrom_of_solid hc, h, rfl⟩

lemma Leads.blank (h : Leads least Start (g.addBlank ' ') ⟨m.forward 1, rest⟩ cs) :
    Leads least Start g ⟨m, ' ' :: rest⟩ cs := by
  obtain ⟨g', i', cs', hread, hstart, hcs⟩ := h
  refine ⟨g', i', cs', ?_, hstart, hcs⟩
  rw [read, readFrom_cons (by decide), if_pos (by decide), if_neg (by simp)]
  exact hread

lemma Leads.lineBreak (hblank : isBlank c = false) (hc : isBreak c) (hreturn : c ≠ '\r')
    (h : Leads least Start (g.addBreak (breakText c)) ⟨m.nextLine 1, rest⟩ cs) :
    Leads least Start g ⟨m, c :: rest⟩ cs := by
  obtain ⟨g', i', cs', hread, hstart, hcs⟩ := h
  refine ⟨g', i', cs', ?_, hstart, hcs⟩
  rw [read, readFrom_cons hreturn, if_neg (by simp [hblank]), if_pos hc]
  exact hread

/-- Once a line has ended, spaces count for nothing. -/
lemma Leads.spaces (n : Nat) (hg : g.broken) (h : Leads least Start g ⟨m.forward n, rest⟩ cs) :
    Leads least Start g ⟨m, List.replicate n ' ' ++ rest⟩ cs := by
  induction n generalizing m with
  | zero => exact h
  | succ n ih =>
    refine .blank ?_
    rw [addBlank, if_pos hg]
    apply ih
    rw [Mark.forward, Mark.forward, Nat.add_assoc, Nat.add_assoc, Nat.add_comm 1]
    exact h

/-- A line that was folded goes on as if there were a space. -/
lemma Leads.newLine {indent : Nat} (hc : isSolid c)
    (h : Start ⟨(m.nextLine 1).forward indent, c :: rest⟩ cs) :
    Leads least Start .empty ⟨m, newLine indent ++ c :: rest⟩ (' ' :: cs) :=
  .lineBreak (by decide) (by decide) (by decide) (.spaces indent rfl (.stop hc h))

end Gap

lemma Input.atMarker_of_column {i : Input} (h : 0 < i.column) (c : Char) :
    i.atMarker c = false := by
  have hcolumn : (i.column == 0) = false := by
    rw [beq_eq_false_iff_ne]
    omega
  unfold atMarker
  split
  · simp [hcolumn]
  · rfl

lemma Input.atMarker_of_head {c d : Char} {m : Mark} {text : List Char} (h : c ≠ d) :
    (⟨m, c :: text⟩ : Input).atMarker d = false := by
  unfold atMarker
  split
  · next heq =>
    obtain ⟨rfl, -⟩ := List.cons.inj heq
    simp [h]
  · rfl

lemma Input.atDocumentIndicator_of_column {i : Input} (h : 0 < i.column) :
    i.atDocumentIndicator = false := by
  rw [atDocumentIndicator, atMarker_of_column h, atMarker_of_column h]
  rfl

lemma Input.atDocumentIndicator_of_head {c : Char} {m : Mark} {text : List Char}
    (h : c ≠ '-' ∧ c ≠ '.') : (⟨m, c :: text⟩ : Input).atDocumentIndicator = false := by
  rw [atDocumentIndicator, atMarker_of_head h.1, atMarker_of_head h.2]
  rfl

end HiToolchain.Yaml
