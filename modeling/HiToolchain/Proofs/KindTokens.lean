import HiToolchain.Kinds.Declaration
import HiToolchain.Proofs.Munch
import HiToolchain.Proofs.StringLiterals
import Mathlib.Data.Bool.AllAny

/-!
# Declarations in any layout

What a file of kind declarations looks like: names and string literals in their order, with
blanks and comments between them. Its tokens are those of the declarations, and the file is
accepted exactly if every literal stands between double quotes.
-/

namespace HiToolchain.Kinds

/-! ### Names -/

/-- Among the first characters only the letters of the alphabet are letters. -/
lemma isLetter_of_ascii {c : Char} (h : c.toNat < 0x80) : isLetter c = c.isAlpha := by
  have hranges : ∀ r ∈ letterRanges.toList, r = (0x41, 0x5a) ∨ r = (0x61, 0x7a) ∨ 0x80 ≤ r.1 := by
    decide +kernel
  have hupper : (0x41, 0x5a) ∈ letterRanges.toList := by decide +kernel
  have hlower : (0x61, 0x7a) ∈ letterRanges.toList := by decide +kernel
  have halpha : c.isAlpha ↔ 0x41 ≤ c.toNat ∧ c.toNat ≤ 0x5a ∨ 0x61 ≤ c.toNat ∧ c.toNat ≤ 0x7a := by
    have hbounds : c.isAlpha = (decide (c.val ≥ 'A'.val ∧ c.val ≤ 'Z'.val) ||
        decide (c.val ≥ 'a'.val) && decide (c.val ≤ 'z'.val)) := rfl
    simp only [hbounds, Bool.or_eq_true, Bool.and_eq_true, decide_eq_true_eq, ge_iff_le,
      UInt32.le_iff_toNat_le]
    rfl
  rw [Bool.eq_iff_iff, isLetter, inRanges_iff, halpha]
  constructor
  · rintro ⟨r, hr, hlow, hhigh⟩
    obtain rfl | rfl | hlarge := hranges r hr
    · exact .inl ⟨hlow, hhigh⟩
    · exact .inr ⟨hlow, hhigh⟩
    · omega
  · rintro (hc | hc)
    · exact ⟨_, hupper, hc⟩
    · exact ⟨_, hlower, hc⟩

lemma isDecimalDigit_of_ascii {c : Char} (h : c.toNat < 0x80) : isDecimalDigit c = c.isDigit := by
  have hranges : ∀ r ∈ decimalDigitRanges.toList, r = (0x30, 0x39) ∨ 0x80 ≤ r.1 := by
    decide +kernel
  have hdigits : (0x30, 0x39) ∈ decimalDigitRanges.toList := by decide +kernel
  have hdigit : c.isDigit ↔ 0x30 ≤ c.toNat ∧ c.toNat ≤ 0x39 := by
    simp only [Char.isDigit, Bool.and_eq_true, decide_eq_true_eq, ge_iff_le,
      UInt32.le_iff_toNat_le]
    rfl
  rw [Bool.eq_iff_iff, isDecimalDigit, inRanges_iff, hdigit]
  constructor
  · rintro ⟨r, hr, hlow, hhigh⟩
    obtain rfl | hlarge := hranges r hr
    · exact ⟨hlow, hhigh⟩
    · omega
  · exact fun hc => ⟨_, hdigits, hc⟩

lemma isNameStart_of_ascii {c : Char} (h : c.toNat < 0x80) :
    isNameStart c = (c == '_' || c.isAlpha) := by
  rw [isNameStart, isLetter_of_ascii h]

lemma isNamePart_of_ascii {c : Char} (h : c.toNat < 0x80) :
    isNamePart c = (c == '_' || c.isAlpha || c.isDigit) := by
  rw [isNamePart, isNameStart_of_ascii h, isDecimalDigit_of_ascii h]

/-! ### Gaps -/

/-- Blanks and comments, the last one ended. -/
inductive Gap : List Char → Prop
  | nil : Gap []
  | blank {c : Char} {g : List Char} (hc : isGap c) (hg : Gap g) : Gap (c :: g)
  | line {t g : List Char} (ht : '\n' ∉ t) (hg : Gap g) : Gap ('/' :: '/' :: (t ++ '\n' :: g))
  | block {t g : List Char} (ht : ¬ ['*', '/'] <:+: t ++ ['*']) (hg : Gap g) :
      Gap ('/' :: '*' :: (t ++ '*' :: '/' :: g))

lemma blockComment_append {t : List Char} (ht : ¬ ['*', '/'] <:+: t ++ ['*']) (rest : List Char) :
    blockComment (t ++ '*' :: '/' :: rest) = .clean (t.length + 2) := by
  induction t with
  | nil => rfl
  | cons c t ih =>
    have hinfix := ih fun h => ht (h.trans (List.suffix_cons c _).isInfix)
    rw [List.cons_append, blockComment, hinfix]
    · simp [Extent.shift, Extent.clean]
      omega
    · rintro rest' rfl hslash
      cases t with
      | nil => cases hslash
      | cons d t =>
        cases hslash
        exact ht ⟨[], t ++ ['*'], rfl⟩

lemma Extent.shift_shift (m n : Nat) (e : Extent) : (e.shift m).shift n = e.shift (n + m) := by
  simp only [Extent.shift, Option.map_map, Extent.mk.injEq]
  refine ⟨by omega, Option.map_congr fun p _ => ?_⟩
  simp [Nat.add_assoc]

lemma Extent.clean_append (n : Nat) (e : Extent) : (Extent.clean n).append e = e.shift n := by
  simp [Extent.append, Extent.clean, Extent.shift]

lemma gap_blank {c : Char} (hc : isGap c) (rest : List Char) :
    gap (c :: rest) = (gap rest).shift 1 := by
  have hslash : c ≠ '/' := by
    rintro rfl
    cases hc
  rw [gap, if_pos hc]
  · exact fun _ h _ => absurd h hslash
  · exact fun _ h _ => absurd h hslash

/-- Nothing is passed over where a token begins. -/
lemma gap_token {c : Char} (hc : isGap c = false) (hslash : c ≠ '/') (rest : List Char) :
    gap (c :: rest) = .clean 0 := by
  rw [gap, if_neg (by rw [hc]; decide)]
  · exact fun _ h _ => absurd h hslash
  · exact fun _ h _ => absurd h hslash

/-- A comment that ends with its line or with the text. -/
lemma gap_line {t rest : List Char} (ht : '\n' ∉ t) (hrest : ∀ c ∈ rest.head?, c = '\n') :
    gap ('/' :: '/' :: (t ++ rest)) = (gap rest).shift (2 + t.length) := by
  have hkeep : (t ++ rest).takeWhile (· != '\n') = t := by
    refine takeWhile_append_of_head (fun c hc => ?_) (fun c hc => ?_)
    · rw [bne_iff_ne]
      exact fun hline => ht (hline ▸ hc)
    · rw [hrest c hc]
      decide
  rw [gap, hkeep, List.drop_left]

lemma Gap.scan {g : List Char} (h : Gap g) (rest : List Char) :
    gap (g ++ rest) = (gap rest).shift g.length := by
  induction h with
  | nil => simp [Extent.shift]
  | @blank c g hc _ ih =>
    rw [List.cons_append, gap_blank hc, ih, Extent.shift_shift, List.length_cons, Nat.add_comm]
  | @line t g ht _ ih =>
    rw [List.cons_append, List.cons_append, List.append_assoc, List.cons_append,
      gap_line ht (by simp), gap_blank rfl, ih, Extent.shift_shift, Extent.shift_shift]
    congr 1
    simp
    omega
  | @block t g ht _ ih =>
    have hdrop : (t ++ '*' :: '/' :: (g ++ rest)).drop (t.length + 2) = g ++ rest := by
      rw [List.drop_append]
      simp
    rw [List.cons_append, List.cons_append, List.append_assoc, List.cons_append, List.cons_append,
      gap, blockComment_append ht, Extent.clean_append]
    simp only [Extent.clean]
    rw [hdrop, ih, Extent.shift_shift, Extent.shift_shift]
    congr 1
    simp
    omega

/-! ### Lexemes -/

/-- A token without its place. -/
def Token.bare (t : Token) : TokenSort × ByteArray := (t.sort, t.value)

/-- The characters make up one token of a form, before what follows them. -/
def Lexes (form : Form) (w rest : List Char) (b : TokenSort × ByteArray) : Prop :=
  ∃ c w', w = c :: w' ∧ isGap c = false ∧ c ≠ '/' ∧
    lexeme c (w' ++ rest) = (form, .clean w.length) ∧
    ∀ place, form.token w place = .ok ⟨b.1, b.2, place⟩

/-- A letter or an underscore, then letters, underscores and digits. -/
def IsName (s : String) : Prop :=
  ∃ c w, s.toList = c :: w ∧ isNameStart c ∧ ∀ d ∈ w, isNamePart d

lemma isNamePart_of_isNameStart {c : Char} (h : isNameStart c) : isNamePart c := by
  rw [isNamePart, h]
  rfl

/-- Letters of the alphabet are a name. -/
lemma isName_of_alpha {s : String}
    (h : (!s.toList.isEmpty && s.toList.all fun c => c.toNat < 0x80 && c.isAlpha) = true) :
    IsName s := by
  simp only [Bool.and_eq_true, List.all_eq_true, decide_eq_true_eq] at h
  obtain ⟨hne, hall⟩ := h
  cases hs : s.toList with
  | nil =>
    rw [hs] at hne
    cases hne
  | cons c w =>
    rw [hs] at hall
    have hstart : ∀ d ∈ c :: w, isNameStart d := fun d hd => by
      rw [isNameStart_of_ascii (hall d hd).1, (hall d hd).2, Bool.or_true]
    exact ⟨c, w, hs, hstart c List.mem_cons_self, fun d hd =>
      isNamePart_of_isNameStart (hstart d (List.mem_cons_of_mem c hd))⟩

lemma IsName.forall_isNamePart {s : String} (h : IsName s) : ∀ d ∈ s.toList, isNamePart d := by
  obtain ⟨c, w, hs, hc, hw⟩ := h
  rw [hs]
  exact List.forall_mem_cons.mpr ⟨isNamePart_of_isNameStart hc, hw⟩

/-- Where a name may end. -/
def EndsName (rest : List Char) : Prop := ∀ c ∈ rest.head?, isNamePart c = false

lemma endsName_nil : EndsName [] := by
  rintro c ⟨⟩

lemma endsName_cons {c : Char} (hascii : c.toNat < 0x80)
    (hc : (c == '_' || c.isAlpha || c.isDigit) = false) (rest : List Char) :
    EndsName (c :: rest) := by
  rintro d ⟨rfl⟩
  rw [isNamePart_of_ascii hascii, hc]

lemma lexes_name {s : String} (h : IsName s) {rest : List Char} (hrest : EndsName rest) :
    Lexes .name s.toList rest (.name, s.toUTF8) := by
  obtain ⟨c, w, hs, hc, hw⟩ := h
  have hother : ∀ d ∈ [' ', '\t', '\n', '\r', '/'], c ≠ d := by
    rintro d hd rfl
    -- decided over the list, where an instance for all characters would be taken otherwise
    have hfree : ∀ d ∈ [' ', '\t', '\n', '\r', '/'],
        d.toNat < 0x80 ∧ (d == '_' || d.isAlpha) = false := List.all_iff_forall_prop.mp (by decide)
    obtain ⟨hascii, hletter⟩ := hfree c hd
    rw [isNameStart_of_ascii hascii, hletter] at hc
    cases hc
  simp only [List.forall_mem_cons, List.not_mem_nil, false_imp_iff, implies_true,
    and_true] at hother
  obtain ⟨hspace, htab, hline, hreturn, hslash⟩ := hother
  have hkeep : (w ++ rest).takeWhile isNamePart = w :=
    takeWhile_append_of_head hw hrest
  refine ⟨c, w, hs, by simp [isGap, hspace, htab, hline, hreturn], hslash, ?_, ?_⟩
  · rw [lexeme, if_pos hc, hkeep, hs, List.length_cons, Nat.add_comm]
  · intro place
    rw [Form.token, String.ofList_toList]

/-- The signs of declarations and of enumerations. -/
def isSign (c : Char) : Bool := c ∈ ['=', ';', ':', '(', ')', '\x7b', '\x7d']

lemma lexes_sign {c : Char} (h : isSign c) (rest : List Char) :
    Lexes .symbol [c] rest (.other, (String.singleton c).toUTF8) := by
  have hsigns : ∀ c ∈ ['=', ';', ':', '(', ')', '\x7b', '\x7d'], c.toNat < 0x80 ∧
      (c == '_' || c.isAlpha) = false ∧ c.isDigit = false ∧ isGap c = false ∧
      c ∉ ['.', '"', '\'', '`', '/'] := List.all_iff_forall_prop.mp (by decide)
  obtain ⟨hascii, hname, hdigit, hgap, hother⟩ := hsigns c (by simpa [isSign] using h)
  simp only [List.mem_cons, List.not_mem_nil, or_false, not_or] at hother
  obtain ⟨hpoint, hdouble, hsingle, hback, hslash⟩ := hother
  refine ⟨c, [], rfl, hgap, hslash, ?_, fun place => rfl⟩
  simp [lexeme, isNameStart_of_ascii hascii, hname, hdigit, hpoint, hdouble, hsingle, hback]

lemma lexes_quoted {w : List Char} {bytes : List UInt8} (h : StringLiteral.Denotes w bytes)
    (rest : List Char) : Lexes .quoted ('"' :: (w ++ ['"'])) rest (.text, bytes.toByteArray) := by
  have hstart : isNameStart '"' = false := isNameStart_of_ascii (by decide)
  refine ⟨'"', w ++ ['"'], rfl, rfl, by decide, ?_, fun place => ?_⟩
  · have hscan := h.scan rest
    simp [lexeme, hstart, hscan, Extent.shift, Extent.clean]
    omega
  · simp only [Form.token, h.value?]
    rfl

lemma rawBody_append {w : List Char} (hw : '`' ∉ w) (rest : List Char) :
    rawBody (w ++ '`' :: rest) = .clean (w.length + 1) := by
  induction w with
  | nil => rfl
  | cons c w ih =>
    rw [List.mem_cons, not_or] at hw
    rw [List.cons_append, rawBody, if_neg (by simpa using Ne.symm hw.1), ih hw.2]
    simp [Extent.shift, Extent.clean, Nat.add_comm]

lemma lexes_raw {w : List Char} (hw : '`' ∉ w) (rest : List Char) :
    Lexes .raw ('`' :: (w ++ ['`'])) rest (.other, (String.ofList w).toUTF8) := by
  have hstart : isNameStart '`' = false := isNameStart_of_ascii (by decide)
  refine ⟨'`', w ++ ['`'], rfl, rfl, by decide, ?_, fun place => ?_⟩
  · have hscan := rawBody_append hw rest
    simp [lexeme, hstart, hscan, Extent.shift, Extent.clean]
    omega
  · simp [Form.token]

/-! ### Tokens -/

/-- From everywhere in a text its tokens are read, with the end as the last one. -/
def Yields (cs : List Char) (bs : List (TokenSort × ByteArray)) : Prop :=
  ∀ seen place, ∃ ts, tokensFrom cs seen place = .ok ts ∧ ts.map Token.bare = bs

lemma problemIn_of_clean {cs : List Char} (h : Char.ofNat 0 ∉ cs) (n seen : Nat) :
    (Extent.clean n).problemIn seen cs = none := by
  have hnul : lastNul? cs seen n = none := by
    rw [lastNul?, List.filter_eq_nil_iff.mpr]
    · rfl
    · rintro ⟨c, i⟩ hc
      have hmem : c ∈ cs := List.mem_of_mem_take (List.fst_mem_of_mem_zipIdx hc)
      have hne : c ≠ Char.ofNat 0 := fun hzero => h (hzero ▸ hmem)
      simp [hne]
  rw [Extent.problemIn, Extent.clean, hnul]

lemma Yields.cons {g w rest : List Char} {form : Form} {b : TokenSort × ByteArray}
    {bs : List (TokenSort × ByteArray)} (hg : Gap g) (hw : Lexes form w rest b)
    (hnul : Char.ofNat 0 ∉ g ++ (w ++ rest)) (h : Yields rest bs) :
    Yields (g ++ (w ++ rest)) (b :: bs) := by
  intro seen place
  obtain ⟨c, w', rfl, hgap, hslash, hlexeme, htoken⟩ := hw
  have hscan : gap (g ++ (c :: w' ++ rest)) = .clean g.length := by
    rw [hg.scan, List.cons_append, gap_token hgap hslash]
    rfl
  have hdrop : (g ++ (c :: w' ++ rest)).drop (gap (g ++ (c :: w' ++ rest))).length =
      c :: (w' ++ rest) := by
    rw [hscan]
    exact List.drop_left
  have htake : (c :: (w' ++ rest)).take (c :: w').length = c :: w' := List.take_left
  have hmore : (w' ++ rest).drop ((c :: w').length - 1) = rest := List.drop_left
  generalize g ++ (c :: w' ++ rest) = cs at hscan hdrop hnul ⊢
  have hclean : ((gap cs).append (.clean (c :: w').length)).problemIn seen cs = none := by
    rw [hscan]
    exact problemIn_of_clean hnul _ _
  obtain ⟨ts, hts, hbare⟩ := h 1
    ((place.afterAll (cs.take (gap cs).length)).afterAll (c :: w'))
  refine ⟨⟨b.1, b.2, place.afterAll (cs.take (gap cs).length)⟩ :: ts, ?_, congrArg _ hbare⟩
  rw [tokensFrom]
  dsimp only
  split
  · next hnil => cases hdrop.symm.trans hnil
  · next d more hd =>
    cases hdrop.symm.trans hd
    simp only [hlexeme, hclean]
    simp only [Extent.clean, htake, htoken, hmore, ok_bind, hts]
    rfl

/-- Where only a gap is left the text ends. -/
lemma Yields.finish {g : List Char} (hg : gap g = .clean g.length) (hnul : Char.ofNat 0 ∉ g) :
    Yields g [(.finish, .empty)] := by
  intro seen place
  refine ⟨[⟨.finish, .empty, place.afterAll (g.take (gap g).length)⟩], ?_, rfl⟩
  have hdrop : g.drop (gap g).length = [] := by
    rw [hg]
    exact List.drop_length
  have hclean : (gap g).problemIn seen g = none := by
    rw [hg]
    exact problemIn_of_clean hnul _ _
  rw [tokensFrom]
  dsimp only
  split
  · rw [hclean]
  · next d more hd => cases hdrop.symm.trans hd

/-! ### Declarations -/

/-- A declaration as it is meant: a name, and a string literal with the bytes that it denotes. -/
structure Entry where
  name : String
  isName : IsName name
  literal : List Char
  denoted : List UInt8
  denotes : StringLiteral.Literal literal denoted

namespace Entry

def isInterpreted (e : Entry) : Bool := e.literal.head? = some '"'

/-- The token of the literal. -/
def token (e : Entry) : TokenSort × ByteArray :=
  if e.isInterpreted then (.text, e.denoted.toByteArray)
  else (.other, (String.ofList (e.literal.drop 1).dropLast).toUTF8)

def tokens (e : Entry) : List (TokenSort × ByteArray) :=
  [(.name, "kind".toUTF8), (.name, e.name.toUTF8), (.other, "=".toUTF8), e.token,
    (.other, ";".toUTF8)]

lemma lexes (e : Entry) (rest : List Char) : ∃ form, Lexes form e.literal rest e.token := by
  obtain ⟨name, isName, literal, denoted, denotes⟩ := e
  cases denotes with
  | interpreted h => exact ⟨.quoted, lexes_quoted h rest⟩
  | @raw w hquote _ =>
    have htoken := lexes_raw hquote rest
    exact ⟨.raw, by simpa [token, isInterpreted] using htoken⟩

end Entry

/-- A gap up to the end of the text, where a comment needs no end of its line. -/
def LastGap (g : List Char) : Prop :=
  Gap g ∨ ∃ front t, Gap front ∧ '\n' ∉ t ∧ g = front ++ '/' :: '/' :: t

/-- The declarations are written one after the other, in any layout. -/
inductive Written : List Entry → List Char → Prop
  | nil {g : List Char} (hg : LastGap g) : Written [] g
  | cons {e : Entry} {es : List Entry} {g₁ g₂ g₃ g₄ g₅ text : List Char} (h₁ : Gap g₁) (h₂ : Gap g₂)
      (hdivided : g₂ ≠ []) (h₃ : Gap g₃) (h₄ : Gap g₄) (h₅ : Gap g₅) (h : Written es text) :
      Written (e :: es) (g₁ ++ ("kind".toList ++ (g₂ ++ (e.name.toList ++ (g₃ ++ (['='] ++
        (g₄ ++ (e.literal ++ (g₅ ++ ([';'] ++ text))))))))))

/-- A declaration with single blanks in it. -/
lemma Written.spaced {e : Entry} {es : List Entry} {g text : List Char} (hg : Gap g)
    (h : Written es text) : Written (e :: es) (g ++ ("kind".toList ++ ([' '] ++ (e.name.toList ++
      ([' '] ++ (['='] ++ ([' '] ++ (e.literal ++ ([] ++ ([';'] ++ text)))))))))) :=
  have hblank : Gap [' '] := .blank rfl .nil
  .cons hg hblank (by decide) hblank hblank .nil h

/-- A text that declares kinds, with a byte order mark or without. -/
def Declares (es : List Entry) (text : String) : Prop :=
  Char.ofNat 0 ∉ text.toList ∧
    (Written es text.toList ∨ ∃ rest, text.toList = '\uFEFF' :: rest ∧ Written es rest)

lemma LastGap.scan {g : List Char} (h : LastGap g) : gap g = .clean g.length := by
  have hnil : gap [] = .clean 0 := by rw [gap]
  obtain h | ⟨front, t, hfront, ht, rfl⟩ := h
  · have hscan := h.scan []
    rw [List.append_nil, hnil] at hscan
    exact hscan
  · have hend : ∀ c ∈ ([] : List Char).head?, c = '\n' := by simp
    have hline := gap_line ht hend
    rw [List.append_nil, hnil] at hline
    rw [hfront.scan, hline]
    simp [Extent.shift, Extent.clean]
    omega

lemma Gap.endsName {g : List Char} (h : Gap g) {rest : List Char} (hrest : g ≠ [] ∨ EndsName rest) :
    EndsName (g ++ rest) := by
  cases h with
  | nil => simpa using hrest
  | @blank c g hc _ =>
    simp only [isGap, Bool.or_eq_true, beq_iff_eq] at hc
    obtain ((rfl | rfl) | rfl) | rfl := hc <;> exact endsName_cons (by decide) (by decide) _
  | line _ _ => exact endsName_cons (by decide) (by decide) _
  | block _ _ => exact endsName_cons (by decide) (by decide) _

/-- The tokens of declarations are read from their text. -/
lemma Written.yields {es : List Entry} {cs : List Char} (h : Written es cs)
    (hnul : Char.ofNat 0 ∉ cs) : Yields cs (es.flatMap Entry.tokens ++ [(.finish, .empty)]) := by
  induction h with
  | nil hg => exact .finish hg.scan hnul
  | @cons e es g₁ g₂ g₃ g₄ g₅ text h₁ h₂ hdivided h₃ h₄ h₅ _ ih =>
    have hright {a b : List Char} (h : Char.ofNat 0 ∉ a ++ b) : Char.ofNat 0 ∉ b :=
      fun hb => h (List.mem_append_right a hb)
    have hname := hright (hright hnul)
    have hsign := hright (hright hname)
    have hliteral := hright (hright hsign)
    have hsemicolon := hright (hright hliteral)
    refine .cons h₁ (lexes_name (isName_of_alpha rfl) (h₂.endsName (.inl hdivided))) hnul ?_
    have hequals : EndsName ('=' :: (g₄ ++ (e.literal ++ (g₅ ++ ([';'] ++ text))))) :=
      endsName_cons (by decide) (by decide) _
    refine .cons h₂ (lexes_name e.isName (h₃.endsName (.inr hequals))) hname ?_
    refine .cons h₃ (lexes_sign rfl _) hsign ?_
    obtain ⟨form, hform⟩ := e.lexes (g₅ ++ ([';'] ++ text))
    refine .cons h₄ hform hliteral ?_
    exact .cons h₅ (lexes_sign rfl _) hsemicolon (ih (hright (hright hsemicolon)))

lemma Written.head {es : List Entry} {cs : List Char} (h : Written es cs) :
    cs.head? ≠ some '\uFEFF' := by
  have hgap {g : List Char} (hg : Gap g) {rest : List Char} (hrest : rest.head? ≠ some '\uFEFF') :
      (g ++ rest).head? ≠ some '\uFEFF' := by
    cases hg with
    | nil => exact hrest
    | blank hc _ =>
      rintro ⟨rfl⟩
      cases hc
    | line _ _ => exact fun h => by cases h
    | block _ _ => exact fun h => by cases h
  cases h with
  | nil hg =>
    obtain hg | ⟨front, t, hfront, -, rfl⟩ := hg
    · have hhead := hgap hg (show ([] : List Char).head? ≠ some '\uFEFF' by simp)
      rwa [List.append_nil] at hhead
    · exact hgap hfront (by simp)
  | cons h₁ => exact hgap h₁ (by simp)

lemma Declares.tokens {es : List Entry} {text : String} (h : Declares es text) :
    ∃ ts, tokens text = .ok ts ∧
      ts.map Token.bare = es.flatMap Entry.tokens ++ [(.finish, .empty)] := by
  obtain ⟨hnul, hwritten | ⟨rest, htext, hwritten⟩⟩ := h
  · have hhead := hwritten.head
    rw [Kinds.tokens]
    split
    · next rest htext =>
      rw [htext] at hhead
      exact absurd rfl hhead
    · exact hwritten.yields hnul 0 ⟨1, 1⟩
  · rw [htext, List.mem_cons, not_or] at hnul
    rw [Kinds.tokens, htext]
    exact hwritten.yields hnul.2 0 ⟨1, 2⟩

/-! ### Accepted declarations -/

namespace Entry

/-- The declaration that is made of an entry. A text that is a literal is read once more. -/
def declaration (e : Entry) : Declaration :=
  ⟨e.name, (StringLiteral.value? e.denoted.toByteArray).getD e.denoted.toByteArray⟩

end Entry

lemma check_accepted {slot : Slot} {t : Token} (hsort : t.sort ≠ .finish) (h : slot.accepts t)
    (rest : List Token) :
    Declaration.check slot (t :: rest) = Declaration.check slot.next rest := by
  simp [Declaration.check, hsort, h]

lemma check_refused {slot : Slot} {t : Token} (hsort : t.sort ≠ .finish)
    (h : slot.accepts t = false) (rest : List Token) :
    ∃ fault, Declaration.check slot (t :: rest) = .error fault := by
  simp [Declaration.check, hsort, h]

/-- The tokens of entries are accepted exactly if every literal is between double quotes. -/
lemma check_entries {es : List Entry} {ts : List Token}
    (h : ts.map Token.bare = es.flatMap Entry.tokens ++ [(.finish, .empty)]) :
    (∀ e ∈ es, e.isInterpreted) ∧ Declaration.check .keyword ts = .ok () ∧
        Declaration.group ts = es.map Entry.declaration ∨
      (∃ e ∈ es, e.isInterpreted = false) ∧
        ∃ fault, Declaration.check .keyword ts = .error fault := by
  induction es generalizing ts with
  | nil =>
    obtain ⟨t, rest, rfl, ht, hrest⟩ := List.map_eq_cons_iff.mp h
    obtain rfl := List.map_eq_nil_iff.mp hrest
    have hsort : t.sort = .finish := congrArg Prod.fst ht
    exact .inl ⟨by simp, by simp [Declaration.check, hsort], rfl⟩
  | cons e es ih =>
    obtain ⟨keyword, ts, rfl, hkeyword, h⟩ := List.map_eq_cons_iff.mp h
    obtain ⟨name, ts, rfl, hname, h⟩ := List.map_eq_cons_iff.mp h
    obtain ⟨equals, ts, rfl, hequals, h⟩ := List.map_eq_cons_iff.mp h
    obtain ⟨tag, ts, rfl, htag, h⟩ := List.map_eq_cons_iff.mp h
    obtain ⟨semicolon, rest, rfl, hsemicolon, h⟩ := List.map_eq_cons_iff.mp h
    obtain ⟨hkeyword, hkind⟩ := Prod.mk.inj hkeyword
    obtain ⟨hname, hvalue⟩ := Prod.mk.inj hname
    obtain ⟨hequals, hsign⟩ := Prod.mk.inj hequals
    obtain ⟨hsemicolon, hend⟩ := Prod.mk.inj hsemicolon
    have hcheck :
        Declaration.check .keyword (keyword :: name :: equals :: tag :: semicolon :: rest) =
          Declaration.check .tag (tag :: semicolon :: rest) := by
      rw [check_accepted (by rw [hkeyword]; decide) (by rw [Slot.accepts, hkind]; rfl),
        check_accepted (by rw [hname]; decide) (by rw [Slot.next, Slot.accepts, hname]; rfl),
        check_accepted (by rw [hequals]; decide)
          (by rw [Slot.next, Slot.next, Slot.accepts, hsign]; rfl)]
      rfl
    rw [hcheck]
    cases hform : e.isInterpreted with
    | false =>
      rw [Entry.token, hform] at htag
      have hsort : tag.sort = .other := congrArg Prod.fst htag
      exact .inr ⟨⟨e, List.mem_cons_self, hform⟩,
        check_refused (by rw [hsort]; decide) (by rw [Slot.accepts, hsort]; rfl) _⟩
    | true =>
      rw [Entry.token, hform] at htag
      obtain ⟨hsort, hdenoted⟩ := Prod.mk.inj htag
      have hrest : Declaration.check .tag (tag :: semicolon :: rest) =
          Declaration.check .keyword rest := by
        rw [check_accepted (by rw [hsort]; decide) (by rw [Slot.accepts, hsort]; rfl),
          check_accepted (by rw [hsemicolon]; decide)
            (by rw [Slot.next, Slot.accepts, hend]; rfl)]
        rfl
      have hdeclaration : Declaration.ofTokens name tag = e.declaration := by
        rw [Declaration.ofTokens, hvalue, hdenoted, Utf8.decode_toUTF8, Entry.declaration]
      rw [hrest]
      obtain ⟨hall, hok, hgroup⟩ | ⟨⟨e', he', hraw⟩, hfault⟩ := ih h
      · refine .inl ⟨List.forall_mem_cons.mpr ⟨hform, hall⟩, hok, ?_⟩
        rw [Declaration.group, hdeclaration, hgroup, List.map_cons]
      · exact .inr ⟨⟨e', List.mem_cons_of_mem _ he', hraw⟩, hfault⟩

/-- A file of declarations is accepted exactly if every literal is between double quotes, and then
gives the declarations in their order. -/
theorem Declares.parse {es : List Entry} {text : String} (h : Declares es text) :
    (∀ e ∈ es, e.isInterpreted) ∧ Declaration.parse text = .ok (es.map Entry.declaration) ∨
      (∃ e ∈ es, e.isInterpreted = false) ∧ ∃ fault, Declaration.parse text = .error fault := by
  obtain ⟨ts, hts, hbare⟩ := h.tokens
  rw [Declaration.parse, hts, ok_bind]
  obtain ⟨hall, hok, hgroup⟩ | ⟨hraw, fault, hfault⟩ := check_entries hbare
  · refine .inl ⟨hall, ?_⟩
    rw [hok, ok_bind, hgroup]
    rfl
  · refine .inr ⟨hraw, fault, ?_⟩
    rw [hfault]
    rfl

end HiToolchain.Kinds
