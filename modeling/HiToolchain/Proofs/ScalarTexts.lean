import HiToolchain.Proofs.DecimalReading
import HiToolchain.Yaml.Doc
import HiToolchain.Yaml.QuotedScalar

/-!
# Scalars can be told from their text

A string is written in one of four styles, folded and indented, with other text after it. In each
style the characters are written one by one, and what is written for one character never starts
what is written for another, so the text shows which string it was and where it ends.
-/

namespace HiToolchain.Yaml

/-! ### Writing one character after the other -/

/-- A way of writing: what may stand for a character in a state, and the state after it. -/
structure Script where
  piece : Bool → Char → List Char → Prop
  after : Char → Bool

namespace Script

/-- The text is written for the characters, from one state to another. -/
inductive Writes (k : Script) : Bool → List Char → List Char → Bool → Prop
  | nil (st : Bool) : Writes k st [] [] st
  | cons {st st' st'' : Bool} {c : Char} {x cs text : List Char} (h : k.piece st c x)
      (hafter : k.after c = st') (hrest : Writes k st' cs text st'') :
      Writes k st (c :: cs) (x ++ text) st''

/-- Two pieces that start one text are written for one character and end at one place. -/
def Legible (k : Script) : Prop :=
  ∀ st c d x y s t, k.piece st c x → k.piece st d y → x ++ s = y ++ t → c = d ∧ s = t

/-- The text does not start with a piece. -/
def Stops (k : Script) (st : Bool) (text : List Char) : Prop :=
  ∀ c x s, k.piece st c x → text ≠ x ++ s

variable {k : Script} {st st₁ st₂ : Bool} {cs ds x y s t : List Char}

/-- A character that is written as it is. -/
lemma Writes.char {c : Char} (h : k.piece st c [c]) (hafter : k.after c = st₁)
    (hrest : k.Writes st₁ cs x st₂) : k.Writes st (c :: cs) (c :: x) st₂ :=
  .cons h hafter hrest

/-- What is written in a legible script can be read in one way only. -/
lemma Writes.unique (hk : k.Legible) (hx : k.Writes st cs x st₁) (hy : k.Writes st ds y st₂)
    (hs : k.Stops st₁ s) (ht : k.Stops st₂ t) (h : x ++ s = y ++ t) : cs = ds ∧ s = t := by
  induction hx generalizing ds y with
  | nil st =>
    cases hy with
    | nil => exact ⟨rfl, h⟩
    | cons hd hafter hrest =>
      rw [List.append_assoc] at h
      exact (hs _ _ _ hd h).elim
  | @cons st st' st₁ c x cs text hc hafter hrest ih =>
    rw [List.append_assoc] at h
    cases hy with
    | nil => exact (ht _ _ _ hc h.symm).elim
    | cons hd hafter' hrest' =>
      rw [List.append_assoc] at h
      obtain ⟨rfl, htext⟩ := hk _ _ _ _ _ _ _ hc hd h
      obtain rfl := hafter.symm.trans hafter'
      obtain ⟨rfl, hend⟩ := ih hrest' hs htext
      exact ⟨rfl, hend⟩

end Script

/-! ### Escapes -/

open QuotedScalar

lemma shortEscape?_of_escapeLetter? {c letter : Char} (h : escapeLetter? c = some letter) :
    shortEscape? letter = some c := by
  have hofNat : ∀ n, c.toNat = n → c = Char.ofNat n := by
    rintro n rfl
    exact c.ofNat_toNat.symm
  unfold escapeLetter? at h
  split at h
  all_goals cases h
  all_goals exact congrArg some (hofNat _ (by assumption)).symm

lemma hexValue?_toUpper {d : Nat} (h : d < 16) : hexValue? d.digitChar.toUpper = some d := by
  have hall : ∀ d : Fin 16, hexValue? d.val.digitChar.toUpper = some d.val := by decide
  exact hall ⟨d, h⟩

lemma hexNumber?_concat (cs : List Char) (c : Char) :
    hexNumber? (cs ++ [c]) = do return 16 * (← hexNumber? cs) + (← hexValue? c) := by
  simp [hexNumber?, List.foldlM_append]

lemma hexNumber?_toDigits (n : Nat) :
    hexNumber? ((Nat.toDigits 16 n).map Char.toUpper) = some n := by
  induction n using Nat.strongRecOn with
  | ind n ih =>
    by_cases hlt : n < 16
    · rw [Nat.toDigits_of_lt_base hlt, List.map_singleton]
      simp [hexNumber?, hexValue?_toUpper hlt]
    · rw [Nat.toDigits_of_base_le (by decide) (by omega), List.map_append, List.map_singleton,
        hexNumber?_concat, ih (n / 16) (by omega), hexValue?_toUpper (by omega)]
      simp [Nat.div_add_mod]

lemma hexNumber?_zeros (k : Nat) (cs : List Char) :
    hexNumber? (List.replicate k '0' ++ cs) = hexNumber? cs := by
  have hzeros : (List.replicate k '0').foldlM
      (fun n c => do return 16 * n + (← hexValue? c)) 0 = some 0 := by
    induction k with
    | zero => rfl
    | succ k ih =>
      rw [List.replicate_succ, List.foldlM_cons]
      exact ih
  rw [hexNumber?, List.foldlM_append, hzeros]
  rfl

lemma upperHex_eq (width n : Nat) : upperHex width n =
    List.replicate (width - (Nat.toDigits 16 n).length) '0' ++
      (Nat.toDigits 16 n).map Char.toUpper := by
  rw [upperHex, hexPadded, String.toList_ofList, List.map_append, List.map_replicate]
  rfl

lemma length_upperHex {width n : Nat} (hwidth : 0 < width) (hn : n < 16 ^ width) :
    (upperHex width n).length = width := by
  have hlength := (Nat.length_toDigits_le_iff (by decide) hwidth).mpr hn
  rw [upperHex_eq, List.length_append, List.length_replicate, List.length_map]
  omega

lemma codePoint?_upperHex {width : Nat} {c : Char} (hwidth : 0 < width)
    (hc : c.toNat < 16 ^ width) (rest : List Char) :
    codePoint? width (upperHex width c.toNat ++ rest) = .ok c := by
  have hlength := length_upperHex hwidth hc
  have htake : (upperHex width c.toNat ++ rest).take width = upperHex width c.toNat :=
    List.take_left' hlength
  have hnumber : hexNumber? (upperHex width c.toNat) = some c.toNat := by
    rw [upperHex_eq, hexNumber?_zeros, hexNumber?_toDigits]
  have hvalid : c.toNat.isValidChar := c.valid
  unfold codePoint?
  simp only [htake, hlength, hnumber, Nat.lt_irrefl, if_false, if_pos hvalid, Char.ofNat_toNat]

/-- A backslash and a letter: one that stands for the character, or one that tells how many digits
of the character's number follow. -/
def Escapes (c : Char) (text : List Char) : Prop :=
  ∃ letter digits, text = '\\' :: letter :: digits ∧
    (shortEscape? letter = some c ∧ digits = [] ∨
      shortEscape? letter = none ∧ codeLength? letter = some digits.length ∧
        ∀ rest, codePoint? digits.length (digits ++ rest) = .ok c)

lemma escapes_code {letter c : Char} {width : Nat} (hwidth : 0 < width)
    (hc : c.toNat < 16 ^ width) (hshort : shortEscape? letter = none)
    (hlong : codeLength? letter = some width) :
    Escapes c ('\\' :: letter :: upperHex width c.toNat) := by
  refine ⟨letter, upperHex width c.toNat, rfl, .inr ⟨hshort, ?_, ?_⟩⟩
  · rw [length_upperHex hwidth hc, hlong]
  · rw [length_upperHex hwidth hc]
    exact codePoint?_upperHex hwidth hc

lemma escapes_escape (c : Char) : Escapes c (escape c) := by
  have hmax : c.toNat < 0x110000 := by
    obtain h | ⟨-, h⟩ := c.valid
    · exact Nat.lt_trans h (by decide)
    · exact h
  unfold escape
  split
  · next letter h => exact ⟨letter, [], rfl, .inl ⟨shortEscape?_of_escapeLetter? h, rfl⟩⟩
  · dsimp only
    split
    · exact escapes_code (by decide) (by omega) rfl rfl
    · split
      · exact escapes_code (by decide) (by omega) rfl rfl
      · exact escapes_code (by decide) (by omega) rfl rfl

lemma Escapes.unique {c d : Char} {x y s t : List Char} (hx : Escapes c x) (hy : Escapes d y)
    (h : x ++ s = y ++ t) : c = d ∧ s = t := by
  obtain ⟨letter, digits, rfl, hread⟩ := hx
  obtain ⟨letter', digits', rfl, hread'⟩ := hy
  simp only [List.cons_append, List.cons.injEq, true_and] at h
  obtain ⟨rfl, h⟩ := h
  obtain ⟨hshort, rfl⟩ | ⟨hshort, hlength, hcode⟩ := hread
  · obtain ⟨hshort', rfl⟩ | ⟨hshort', -⟩ := hread'
    · rw [hshort] at hshort'
      exact ⟨Option.some.inj hshort', h⟩
    · rw [hshort] at hshort'
      cases hshort'
  · obtain ⟨hshort', -⟩ | ⟨-, hlength', hcode'⟩ := hread'
    · rw [hshort] at hshort'
      cases hshort'
    · rw [hlength] at hlength'
      obtain ⟨rfl, hrest⟩ := List.append_inj h (Option.some.inj hlength')
      exact ⟨Except.ok.inj ((hcode []).symm.trans (hcode' [])), hrest⟩

/-! ### Double quotes -/

/-- What stands for a character between double quotes. -/
inductive DoublePiece (indent : Nat) : Char → List Char → Prop
  | char {c : Char} (h : needsEscape c = false) : DoublePiece indent c [c]
  | fold : DoublePiece indent ' ' (newLine indent)
  | escaped {c : Char} {x : List Char} (h : Escapes c x) : DoublePiece indent c x

def doubleScript (indent : Nat) : Script where
  piece _ := DoublePiece indent
  after _ := false

lemma doubleScript_legible (indent : Nat) : (doubleScript indent).Legible := by
  intro st c d x y s t hx hy h
  cases hx with
  | char hc =>
    cases hy with
    | char hd => exact List.cons.inj h
    | fold =>
      obtain ⟨rfl, -⟩ := List.cons.inj h
      cases hc
    | escaped hd =>
      obtain ⟨letter, digits, rfl, -⟩ := hd
      obtain ⟨rfl, -⟩ := List.cons.inj h
      cases hc
  | fold =>
    cases hy with
    | char hd =>
      obtain ⟨rfl, -⟩ := List.cons.inj h
      cases hd
    | fold => exact ⟨rfl, List.append_cancel_left h⟩
    | escaped hd =>
      obtain ⟨letter, digits, rfl, -⟩ := hd
      cases h
  | escaped hc =>
    cases hy with
    | char hd =>
      obtain ⟨letter, digits, rfl, -⟩ := hc
      obtain ⟨rfl, -⟩ := List.cons.inj h
      cases hd
    | fold =>
      obtain ⟨letter, digits, rfl, -⟩ := hc
      cases h
    | escaped hd => exact hc.unique hd h

lemma doubleScript_stops (indent : Nat) (st : Bool) (rest : List Char) :
    (doubleScript indent).Stops st ('"' :: rest) := by
  intro c x s hx h
  cases hx with
  | char hc =>
    obtain ⟨rfl, -⟩ := List.cons.inj h
    cases hc
  | fold => cases h
  | escaped hc =>
    obtain ⟨letter, digits, rfl, -⟩ := hc
    cases h

/-- A space after a fold may have a backslash before it. -/
lemma foldDouble_writes (indent column : Nat) (first afterSpace : Bool) (cs : List Char) :
    (doubleScript indent).Writes false cs (foldDouble indent column first afterSpace cs) false ∧
      (cs.head? = some ' ' → (doubleScript indent).Writes false cs
        ('\\' :: foldDouble indent column false true cs) false) := by
  induction cs generalizing column first afterSpace with
  | nil => exact ⟨.nil false, nofun⟩
  | cons c rest ih =>
    refine ⟨?_, ?_⟩
    · rw [foldDouble]
      split
      · exact .cons (.escaped (escapes_escape c)) rfl (ih _ _ _).1
      · next hescape =>
        have hc : needsEscape c = false := by simpa using hescape
        split
        · next hspace =>
          obtain rfl : c = ' ' := by simpa using hspace
          split
          · by_cases hnext : rest.head? = some ' '
            · simp only [hnext, beq_self_eq_true, if_true]
              rw [List.append_assoc]
              exact .cons .fold rfl ((ih _ false true).2 hnext)
            · have hkeep : (rest.head? == some ' ') = false := by simpa using hnext
              simp only [hkeep, Bool.false_eq_true, if_false, List.append_nil]
              exact .cons .fold rfl (ih _ _ _).1
          · exact .char (.char hc) rfl (ih _ _ _).1
        · exact .char (.char hc) rfl (ih _ _ _).1
    · intro hhead
      obtain rfl : c = ' ' := Option.some.inj hhead
      have hkept : Escapes ' ' ['\\', ' '] := ⟨' ', [], rfl, .inl ⟨rfl, rfl⟩⟩
      exact .cons (DoublePiece.escaped hkept) rfl (ih (column + 1) false true).1

/-! ### Plain text and single quotes -/

/-- What stands for a character in plain text or between single quotes. After a break the text is
indented. -/
inductive FlowPiece (indent : Nat) (write : Char → List Char) : Bool → Char → List Char → Prop
  | space : FlowPiece indent write false ' ' [' ']
  | fold : FlowPiece indent write false ' ' (newLine indent)
  | char {afterBreak : Bool} {c : Char} {n : Nat} (hspace : c ≠ ' ') (hfeed : c ≠ '\n')
      (hn : afterBreak = false → n = 0) :
      FlowPiece indent write afterBreak c (List.replicate n ' ' ++ write c)

def flowScript (indent : Nat) (write : Char → List Char) : Script where
  piece := FlowPiece indent write
  after := isBreak

lemma replicate_append_cons_inj {α : Type} {a c d : α} {m n : Nat} {s t : List α} (hc : c ≠ a)
    (hd : d ≠ a) (h : List.replicate m a ++ c :: s = List.replicate n a ++ d :: t) :
    c = d ∧ s = t := by
  induction m generalizing n with
  | zero =>
    cases n with
    | zero => exact List.cons.inj h
    | succ n => exact (hc (List.cons.inj h).1).elim
  | succ m ih =>
    cases n with
    | zero => exact (hd (List.cons.inj h).1.symm).elim
    | succ n => exact ih (List.cons.inj h).2

section

variable {indent : Nat} {write : Char → List Char}

lemma flowScript_legible (hwrite : ∀ c, ∃ more, write c = c :: more) :
    (flowScript indent write).Legible := by
  intro st c d x y s t hx hy h
  cases hx with
  | space =>
    cases hy with
    | space => exact ⟨rfl, (List.cons.inj h).2⟩
    | fold => cases h
    | char hspace hfeed hn =>
      obtain ⟨more, hmore⟩ := hwrite d
      rw [hn rfl, hmore] at h
      exact (hspace (List.cons.inj h).1.symm).elim
  | fold =>
    cases hy with
    | space => cases h
    | fold => exact ⟨rfl, List.append_cancel_left h⟩
    | char hspace hfeed hn =>
      obtain ⟨more, hmore⟩ := hwrite d
      rw [hn rfl, hmore] at h
      exact (hfeed (List.cons.inj h).1.symm).elim
  | char hspace hfeed hn =>
    obtain ⟨more, hmore⟩ := hwrite c
    cases hy with
    | space =>
      rw [hn rfl, hmore] at h
      exact (hspace (List.cons.inj h).1).elim
    | fold =>
      rw [hn rfl, hmore] at h
      exact (hfeed (List.cons.inj h).1).elim
    | char hspace' hfeed' hn' =>
      obtain ⟨more', hmore'⟩ := hwrite d
      rw [hmore, hmore', List.append_assoc, List.append_assoc] at h
      obtain ⟨rfl, hrest⟩ := replicate_append_cons_inj hspace hspace' h
      rw [hmore] at hmore'
      obtain ⟨-, rfl⟩ := List.cons.inj hmore'
      exact ⟨rfl, List.append_cancel_left hrest⟩

lemma hasBreakSpace_cons {c : Char} {rest : List Char} (h : hasBreakSpace (c :: rest) = false) :
    hasBreakSpace rest = false ∧ (isBreak c → rest.head? ≠ some ' ') := by
  cases rest with
  | nil => exact ⟨rfl, fun _ => nofun⟩
  | cons d rest =>
    simp only [hasBreakSpace, anyAdjacent, Bool.or_eq_false_iff] at h
    refine ⟨h.2, ?_⟩
    rintro hc ⟨rfl⟩
    rw [hc] at h
    cases h.1

lemma foldFlow_writes (hbreak : ∀ c, isBreak c → write c = [c]) {cs : List Char}
    (hfeed : '\n' ∉ cs) (hspaces : hasBreakSpace cs = false) (column : Nat)
    (first afterSpace afterBreak : Bool) (hhead : afterBreak = true → cs.head? ≠ some ' ') :
    ∃ st, (flowScript indent write).Writes afterBreak cs
      (foldFlow indent write column first afterSpace afterBreak cs) st := by
  induction cs generalizing column first afterSpace afterBreak with
  | nil => exact ⟨_, .nil _⟩
  | cons c rest ih =>
    obtain ⟨hne, hrestFeed⟩ := List.ne_and_not_mem_of_not_mem_cons hfeed
    obtain ⟨hrestSpaces, hafter⟩ := hasBreakSpace_cons hspaces
    have hc : c ≠ '\n' := Ne.symm hne
    rw [foldFlow]
    split
    · next hspace =>
      obtain rfl : c = ' ' := by simpa using hspace
      -- a space does not stand after a break
      obtain rfl : afterBreak = false := by
        rw [← Bool.not_eq_true]
        exact fun h => hhead h rfl
      have hrest := fun column => ih hrestFeed hrestSpaces column false true false nofun
      dsimp only
      split
      · obtain ⟨st, hst⟩ := hrest indent
        exact ⟨st, .cons .fold rfl hst⟩
      · obtain ⟨st, hst⟩ := hrest (column + 1)
        exact ⟨st, .char .space rfl hst⟩
    · next hspace =>
      have hspace : c ≠ ' ' := by simpa using hspace
      split
      · next hcBreak =>
        obtain ⟨st, hst⟩ := ih hrestFeed hrestSpaces 0 false afterSpace true fun _ => hafter hcBreak
        have hpiece : FlowPiece indent write afterBreak c [c] := by
          rw [← hbreak c hcBreak]
          exact FlowPiece.char (n := 0) hspace hc fun _ => rfl
        exact ⟨st, .char hpiece hcBreak hst⟩
      · next hcBreak =>
        have hcBreak : isBreak c = false := by simpa using hcBreak
        dsimp only
        generalize column + _ = column'
        obtain ⟨st, hst⟩ := ih hrestFeed hrestSpaces column' false false false nofun
        have hpiece : FlowPiece indent write afterBreak c
            ((if afterBreak then List.replicate (indent - column) ' ' else []) ++ write c) := by
          cases afterBreak with
          | false => exact FlowPiece.char (n := 0) hspace hc fun _ => rfl
          | true => exact FlowPiece.char hspace hc nofun
        exact ⟨st, .cons hpiece hcBreak hst⟩

end

/-! ### Literal lines -/

/-- What stands for a character in literal lines. -/
inductive LinePiece (indent : Nat) : Bool → Char → List Char → Prop
  | lineBreak {lineStart : Bool} {c : Char} (h : isBreak c) : LinePiece indent lineStart c [c]
  | char {lineStart : Bool} {c : Char} (h : isBreak c = false) :
      LinePiece indent lineStart c
        ((if lineStart then List.replicate indent ' ' else []) ++ [c])

def lineScript (indent : Nat) : Script where
  piece := LinePiece indent
  after := isBreak

lemma indented_ne_break {indent : Nat} {lineStart : Bool} {c d : Char} {s t : List Char}
    (hc : isBreak c = false) (hd : isBreak d) :
    (if lineStart then List.replicate indent ' ' else []) ++ [c] ++ s ≠ d :: t := by
  have hne : ∀ u : List Char, c :: u ≠ d :: t := by
    intro u h
    obtain ⟨rfl, -⟩ := List.cons.inj h
    rw [hc] at hd
    cases hd
  cases lineStart with
  | false => exact hne s
  | true =>
    cases indent with
    | zero => exact hne s
    | succ indent =>
      intro h
      obtain ⟨rfl, -⟩ := List.cons.inj h
      cases hd

lemma lineScript_legible (indent : Nat) : (lineScript indent).Legible := by
  intro st c d x y s t hx hy h
  cases hx with
  | lineBreak hc =>
    cases hy with
    | lineBreak hd => exact List.cons.inj h
    | char hd => exact (indented_ne_break hd hc h.symm).elim
  | char hc =>
    cases hy with
    | lineBreak hd => exact (indented_ne_break hc hd h).elim
    | char hd =>
      rw [List.append_assoc, List.append_assoc] at h
      exact List.cons.inj (List.append_cancel_left h)

lemma literalLines_writes (indent : Nat) (lineStart : Bool) (cs : List Char) :
    (lineScript indent).Writes lineStart cs (literalLines indent lineStart cs)
      (cs.foldl (fun _ c => isBreak c) lineStart) := by
  induction cs generalizing lineStart with
  | nil => exact .nil _
  | cons c rest ih =>
    rw [literalLines, List.foldl_cons]
    split
    · next hc =>
      rw [hc]
      exact .char (.lineBreak hc) hc (ih true)
    · next hc =>
      have hc : isBreak c = false := by simpa using hc
      rw [hc, List.append_cons]
      exact .cons (.char hc) hc (ih false)

/-! ### Whole scalars -/

/-- What follows a scalar: nothing, or a line with less indentation. -/
structure Outdented (indent : Nat) (text : List Char) : Prop where
  less : ¬ List.replicate indent ' ' <+: text
  noBreak : ∀ c ∈ text.head?, isBreak c = false

lemma lineScript_stops {indent : Nat} {rest : List Char} (h : Outdented indent rest) :
    (lineScript indent).Stops true rest := by
  rintro c x s hx rfl
  cases hx with
  | lineBreak hc =>
    have hcontra := h.noBreak c rfl
    rw [hc] at hcontra
    cases hcontra
  | char hc =>
    apply h.less
    rw [if_pos rfl, List.append_assoc]
    exact List.prefix_append _ _

def plainScript (indent : Nat) : Script := flowScript indent fun c => [c]

lemma plainScript_legible (indent : Nat) : (plainScript indent).Legible :=
  flowScript_legible fun _ => ⟨[], rfl⟩

lemma plainScript_stops {indent : Nat} {rest : List Char} (h : Outdented indent rest)
    (st : Bool) : (plainScript indent).Stops st ('\n' :: rest) := by
  intro c x s hx heq
  cases hx with
  | space => cases heq
  | fold =>
    obtain ⟨-, rfl⟩ := List.cons.inj heq
    exact h.less (List.prefix_append _ _)
  | @char _ _ n hspace hfeed hn =>
    cases n with
    | zero => exact hfeed (List.cons.inj heq).1.symm
    | succ n => cases heq

/-- In single quotes a single quote is written twice. -/
def quoteTwice (c : Char) : List Char :=
  if c == '\'' then [c, c] else [c]

def singleScript (indent : Nat) : Script := flowScript indent quoteTwice

lemma singleScript_legible (indent : Nat) : (singleScript indent).Legible := by
  refine flowScript_legible fun c => ?_
  unfold quoteTwice
  split
  · exact ⟨[c], rfl⟩
  · exact ⟨[], rfl⟩

lemma singleScript_stops (indent : Nat) (st : Bool) (rest : List Char) :
    (singleScript indent).Stops st ('\'' :: '\n' :: rest) := by
  intro c x s hx h
  cases hx with
  | space => cases h
  | fold => cases h
  | @char _ _ n hspace hfeed hn =>
    cases n with
    | zero =>
      rw [quoteTwice] at h
      split at h
      · obtain ⟨rfl, h⟩ := List.cons.inj h
        cases h
      · next hquote =>
        obtain ⟨rfl, -⟩ := List.cons.inj h
        exact hquote rfl
    | succ n => cases h

/-- The style that the first character of a scalar shows. -/
def leadStyle (c : Char) : ScalarStyle :=
  if c = '\'' then .single
  else if c = '|' then .literal
  else if c = '"' then .double
  else .plain

/-- What each style asks of a string. -/
lemma chooseStyle_spec (s : String) :
    match chooseStyle s with
    | .plain => '\n' ∉ s.toList ∧ needsQuotes s = false ∧ allowsPlain s.toList
    | .single => '\n' ∉ s.toList ∧ allowsSingle s.toList
    | .literal => '\n' ∈ s.toList
    | .double => True := by
  unfold chooseStyle
  dsimp only
  by_cases hfeed : '\n' ∈ s.toList
  · rw [if_pos (by simpa using hfeed)]
    by_cases hliteral : allowsLiteral s.toList = true
    · rw [if_pos hliteral]
      exact hfeed
    · rw [if_neg hliteral]
      trivial
  · rw [if_neg (by simpa using hfeed)]
    by_cases hquotes : needsQuotes s = true
    · rw [if_pos hquotes]
      trivial
    · rw [if_neg hquotes]
      by_cases hplain : allowsPlain s.toList = true
      · rw [if_pos hplain]
        exact ⟨hfeed, by simpa using hquotes, hplain⟩
      · rw [if_neg hplain]
        by_cases hsingle : allowsSingle s.toList = true
        · rw [if_pos hsingle]
          exact ⟨hfeed, hsingle⟩
        · rw [if_neg hsingle]
          trivial

lemma hasIndicator_of_head {c : Char} (h : isIndicator c) (rest : List Char) :
    hasIndicator (c :: rest) := by
  cases rest with
  | nil => simp [hasIndicator, h]
  | cons d rest => simp [hasIndicator, h]

lemma plainText_cons {c : Char} {rest : List Char} (h : allowsPlain (c :: rest))
    (indent column : Nat) :
    leadStyle c = .plain ∧ ∃ more, plainText indent column (c :: rest) = c :: more := by
  simp only [allowsPlain, List.any_cons, Bool.not_eq_true', Bool.or_eq_false_iff] at h
  obtain ⟨⟨⟨⟨⟨hbreak, -⟩, -⟩, hindicator⟩, hspace⟩, -⟩ := h
  have hlead : ∀ d, isIndicator d → c ≠ d := by
    rintro _ hd rfl
    rw [hasIndicator_of_head hd rest] at hindicator
    cases hindicator
  have hc : (c == ' ') = false := by simpa using hspace
  have htext : plainText indent column (c :: rest) =
      c :: foldFlow indent (fun c => [c]) (column + 1) false false false rest := by
    rw [plainText, foldFlow]
    simp only [hc, hbreak, Bool.false_eq_true, if_false, List.nil_append]
    rfl
  refine ⟨?_, _, htext⟩
  rw [leadStyle, if_neg (hlead _ (by decide)), if_neg (hlead _ (by decide)),
    if_neg (hlead _ (by decide))]

/-- The first character of a scalar shows its style. -/
lemma exists_lead (indent column : Nat) (s : String) :
    ∃ c more, (scalarLine indent column s).toList = c :: more ∧ leadStyle c = chooseStyle s := by
  have hspec := chooseStyle_spec s
  rw [scalarLine, String.toList_ofList]
  cases hstyle : chooseStyle s with
  | plain =>
    rw [hstyle] at hspec
    obtain ⟨-, hquotes, hplain⟩ := hspec
    cases hs : s.toList with
    | nil =>
      obtain rfl : s = "" := String.toList_inj.mp hs
      cases hquotes
    | cons c rest =>
      rw [hs] at hplain
      obtain ⟨hlead, more, hmore⟩ := plainText_cons hplain indent column
      dsimp only
      rw [hmore]
      exact ⟨c, _, rfl, hlead⟩
  | single => exact ⟨'\'', _, rfl, rfl⟩
  | literal => exact ⟨'|', _, rfl, rfl⟩
  | double => exact ⟨'"', _, rfl, rfl⟩

/-- The lines of a literal scalar with the end of the last one. -/
def endedLines (cs : List Char) : List Char :=
  if (cs.getLast?).any isBreak then cs else cs ++ ['\n']

lemma literalLines_concat (indent : Nat) (lineStart : Bool) (cs : List Char) :
    literalLines indent lineStart (cs ++ ['\n']) = literalLines indent lineStart cs ++ ['\n'] := by
  induction cs generalizing lineStart with
  | nil => rfl
  | cons c cs ih =>
    rw [List.cons_append, literalLines, literalLines, ih, ih]
    split
    · rfl
    · rw [List.append_assoc, List.cons_append]

lemma literalLines_ended (indent : Nat) (cs : List Char) :
    literalLines indent true (endedLines cs) =
      literalLines indent true cs ++ if (cs.getLast?).any isBreak then [] else ['\n'] := by
  unfold endedLines
  split
  · rw [List.append_nil]
  · exact literalLines_concat indent true cs

lemma endedLines_writes (indent : Nat) (cs : List Char) :
    (lineScript indent).Writes true (endedLines cs) (literalLines indent true (endedLines cs))
      true := by
  have hlast : ∃ init c, endedLines cs = init ++ [c] ∧ isBreak c := by
    unfold endedLines
    split
    · next h =>
      obtain ⟨c, hc, hbreak⟩ := Option.any_eq_true _ _ |>.mp h
      obtain ⟨init, rfl⟩ := List.getLast?_eq_some_iff.mp hc
      exact ⟨init, c, rfl, hbreak⟩
    · exact ⟨cs, '\n', rfl, rfl⟩
  obtain ⟨init, c, hended, hbreak⟩ := hlast
  have hwrites := literalLines_writes indent true (endedLines cs)
  rw [hended, List.foldl_concat, hbreak] at hwrites
  rw [hended]
  exact hwrites

/-- The header of a literal scalar tells whether the string ends with a break. -/
lemma literalHeader_cases (cs : List Char) : ∃ hint chomp : List Char,
    literalHeader cs = '|' :: hint ++ chomp ∧ (hint = [] ∨ hint = ['2']) ∧
      if (cs.getLast?).any isBreak then chomp = [] ∨ chomp = ['+'] else chomp = ['-'] := by
  refine ⟨_, _, rfl, ?_, ?_⟩
  · cases cs with
    | nil => exact .inl rfl
    | cons c cs =>
      dsimp only
      split
      · exact .inr rfl
      · exact .inl rfl
  · rw [List.getLast?_eq_head?_reverse]
    cases cs.reverse with
    | nil => rfl
    | cons c rest =>
      cases rest with
      | nil => cases hc : isBreak c <;> simp [hc]
      | cons d rest => cases hc : isBreak c <;> cases hd : isBreak d <;> simp [hc, hd]

lemma feed_notMem_literalHeader (cs : List Char) : '\n' ∉ literalHeader cs := by
  obtain ⟨hint, chomp, hheader, hhint, hchomp⟩ := literalHeader_cases cs
  rw [hheader]
  split at hchomp
  · obtain rfl | rfl := hhint <;> obtain rfl | rfl := hchomp <;> decide
  · obtain rfl := hchomp
    obtain rfl | rfl := hhint <;> decide

lemma dash_mem_literalHeader (cs : List Char) :
    '-' ∈ literalHeader cs ↔ (cs.getLast?).any isBreak = false := by
  obtain ⟨hint, chomp, hheader, hhint, hchomp⟩ := literalHeader_cases cs
  rw [hheader]
  split at hchomp
  · next h => obtain rfl | rfl := hhint <;> obtain rfl | rfl := hchomp <;> simp [h]
  · next h =>
    obtain rfl := hchomp
    simpa using h

lemma endedLines_inj {cs ds : List Char}
    (hbreak : (cs.getLast?).any isBreak = (ds.getLast?).any isBreak)
    (h : endedLines cs = endedLines ds) : cs = ds := by
  unfold endedLines at h
  rw [hbreak] at h
  split at h
  · exact h
  · exact List.append_cancel_right h

lemma literalText_unique {indent : Nat} {cs ds s t : List Char} (hs : Outdented indent s)
    (ht : Outdented indent t)
    (h : literalText indent cs ++ (if (cs.getLast?).any isBreak then [] else ['\n']) ++ s =
      literalText indent ds ++ (if (ds.getLast?).any isBreak then [] else ['\n']) ++ t) :
    cs = ds ∧ s = t := by
  have htext : ∀ cs : List Char, literalText indent cs ++
      (if (cs.getLast?).any isBreak then [] else ['\n']) =
        literalHeader cs ++ '\n' :: literalLines indent true (endedLines cs) := by
    intro cs
    rw [literalText, List.append_assoc, List.cons_append, ← literalLines_ended]
  rw [htext, htext, List.append_assoc, List.append_assoc, List.cons_append,
    List.cons_append] at h
  have hheader : literalHeader cs = literalHeader ds := by
    rw [← takeWhile_ne_append (feed_notMem_literalHeader cs) _, h,
      takeWhile_ne_append (feed_notMem_literalHeader ds)]
  rw [hheader] at h
  obtain ⟨-, hlines⟩ := List.cons.inj (List.append_cancel_left h)
  obtain ⟨hended, hrest⟩ := (endedLines_writes indent cs).unique (lineScript_legible indent)
    (endedLines_writes indent ds) (lineScript_stops hs) (lineScript_stops ht) hlines
  refine ⟨endedLines_inj ?_ hended, hrest⟩
  have hdash := dash_mem_literalHeader cs
  rw [hheader, dash_mem_literalHeader ds] at hdash
  cases hc : (cs.getLast?).any isBreak <;> cases hd : (ds.getLast?).any isBreak <;>
    simp [hc, hd] at hdash ⊢

lemma hasBreakSpace_of_any {cs : List Char} (h : cs.any isBreak = false) :
    hasBreakSpace cs = false := by
  induction cs with
  | nil => rfl
  | cons c cs ih =>
    rw [List.any_cons, Bool.or_eq_false_iff] at h
    cases cs with
    | nil => rfl
    | cons d cs =>
      have hrest : anyAdjacent _ (d :: cs) = false := ih h.2
      rw [hasBreakSpace, anyAdjacent, h.1, hrest]
      rfl

lemma plainText_writes {cs : List Char} (hfeed : '\n' ∉ cs) (hplain : allowsPlain cs)
    (indent column : Nat) :
    ∃ st, (plainScript indent).Writes false cs (plainText indent column cs) st := by
  have hbreak : cs.any isBreak = false := by
    simp only [allowsPlain, Bool.not_eq_true', Bool.or_eq_false_iff] at hplain
    exact hplain.1.1.1.1
  exact foldFlow_writes (fun _ _ => rfl) hfeed (hasBreakSpace_of_any hbreak) column true false
    false nofun

lemma singleText_writes {cs : List Char} (hfeed : '\n' ∉ cs) (hsingle : allowsSingle cs)
    (indent column : Nat) :
    ∃ text st, (singleScript indent).Writes false cs text st ∧
      singleText indent column cs = '\'' :: (text ++ ['\'']) := by
  have hspaces : hasBreakSpace cs = false := by
    simp only [allowsSingle, Bool.not_eq_true', Bool.or_eq_false_iff] at hsingle
    exact hsingle.1.1
  have hwrite : ∀ c, isBreak c → quoteTwice c = [c] := by
    intro c hc
    rw [quoteTwice, if_neg]
    intro hquote
    obtain rfl : c = '\'' := by simpa using hquote
    cases hc
  obtain ⟨st, hst⟩ : ∃ st, (singleScript indent).Writes false cs
      (foldFlow indent quoteTwice (column + 1) true false false cs) st :=
    foldFlow_writes hwrite hfeed hspaces (column + 1) true false false nofun
  exact ⟨_, st, hst, rfl⟩

/-- Two scalars that start one text, each with a line of less indentation after it, are the same
scalar. -/
lemma scalarLine_unique {indent column : Nat} {s t : String} {rest rest' : List Char}
    (hrest : Outdented indent rest) (hrest' : Outdented indent rest')
    (h : (scalarLine indent column s).toList ++ rest =
      (scalarLine indent column t).toList ++ rest') : s = t ∧ rest = rest' := by
  obtain ⟨c, more, hs, hcs⟩ := exists_lead indent column s
  obtain ⟨d, more', ht, hdt⟩ := exists_lead indent column t
  have hstyle : chooseStyle s = chooseStyle t := by
    have hlead := h
    rw [hs, ht] at hlead
    rw [← hcs, ← hdt, (List.cons.inj hlead).1]
  suffices htoList : s.toList = t.toList ∧ rest = rest' from
    ⟨String.toList_inj.mp htoList.1, htoList.2⟩
  have hspec := chooseStyle_spec s
  have hspec' := chooseStyle_spec t
  simp only [scalarLine, String.toList_ofList] at h
  rw [hstyle] at hspec h
  cases hchosen : chooseStyle t with
  | plain =>
    rw [hchosen] at hspec hspec' h
    obtain ⟨st, hwrites⟩ := plainText_writes hspec.1 hspec.2.2 indent column
    obtain ⟨st', hwrites'⟩ := plainText_writes hspec'.1 hspec'.2.2 indent column
    simp only [List.append_assoc, List.singleton_append] at h
    obtain ⟨hsame, hend⟩ := hwrites.unique (plainScript_legible indent) hwrites'
      (plainScript_stops hrest st) (plainScript_stops hrest' st') h
    exact ⟨hsame, (List.cons.inj hend).2⟩
  | single =>
    rw [hchosen] at hspec hspec' h
    obtain ⟨text, st, hwrites, htext⟩ := singleText_writes hspec.1 hspec.2 indent column
    obtain ⟨text', st', hwrites', htext'⟩ := singleText_writes hspec'.1 hspec'.2 indent column
    rw [htext, htext'] at h
    simp only [List.cons_append, List.append_assoc, List.nil_append, List.cons.injEq,
      true_and] at h
    obtain ⟨hsame, hend⟩ := hwrites.unique (singleScript_legible indent) hwrites'
      (singleScript_stops indent st rest) (singleScript_stops indent st' rest') h
    exact ⟨hsame, (List.cons.inj (List.cons.inj hend).2).2⟩
  | literal =>
    rw [hchosen] at h
    exact literalText_unique hrest hrest' h
  | double =>
    rw [hchosen] at h
    simp only [doubleText, List.cons_append, List.append_assoc, List.nil_append, List.cons.injEq,
      true_and] at h
    obtain ⟨hsame, hend⟩ := (foldDouble_writes indent (column + 1) true false _).1.unique
      (doubleScript_legible indent) (foldDouble_writes indent (column + 1) true false _).1
      (doubleScript_stops indent false _) (doubleScript_stops indent false _) h
    exact ⟨hsame, (List.cons.inj (List.cons.inj hend).2).2⟩

end HiToolchain.Yaml
