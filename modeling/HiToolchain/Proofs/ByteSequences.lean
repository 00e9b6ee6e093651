import HiToolchain.Proofs.ManifestFile
import HiToolchain.Proofs.PrintedWholes

/-!
# Bytes as UTF-8

The well-formed sequences of UTF-8 by their bytes, and decoding as it is told of bytes: a
well-formed sequence stands for its code point, and a byte at which none begins is passed over and
stands for the replacement character. The bounds on the second byte leave out overlong forms,
surrogates and code points from 0x110000 on, so the sequences are the encodings of characters.
-/

namespace HiToolchain.Utf8

/-- A byte that continues a sequence. -/
def IsTail (b : UInt8) : Prop := 0x80 ≤ b.toNat ∧ b.toNat ≤ 0xbf

/-- What a byte that continues a sequence adds to the code point. -/
def tailBits (b : UInt8) : Nat := b.toNat - 0x80

/-- A well-formed sequence and the code point it stands for. -/
inductive Sequence : List UInt8 → Nat → Prop
  | one {a : UInt8} (ha : a.toNat ≤ 0x7f) : Sequence [a] a.toNat
  | two {a b : UInt8} (low : 0xc2 ≤ a.toNat) (high : a.toNat ≤ 0xdf) (hb : IsTail b) :
      Sequence [a, b] ((a.toNat - 0xc0) * 64 + tailBits b)
  | three {a b c : UInt8} (low : 0xe0 ≤ a.toNat) (high : a.toNat ≤ 0xef)
      (overlong : a.toNat = 0xe0 → 0xa0 ≤ b.toNat) (surrogate : a.toNat = 0xed → b.toNat ≤ 0x9f)
      (hb : IsTail b) (hc : IsTail c) :
      Sequence [a, b, c] ((a.toNat - 0xe0) * 4096 + tailBits b * 64 + tailBits c)
  | four {a b c d : UInt8} (low : 0xf0 ≤ a.toNat) (high : a.toNat ≤ 0xf4)
      (overlong : a.toNat = 0xf0 → 0x90 ≤ b.toNat) (great : a.toNat = 0xf4 → b.toNat ≤ 0x8f)
      (hb : IsTail b) (hc : IsTail c) (hd : IsTail d) :
      Sequence [a, b, c, d]
        ((a.toNat - 0xf0) * 262144 + tailBits b * 4096 + tailBits c * 64 + tailBits d)

/-- Bytes that are well-formed sequences one after the other. -/
inductive WellFormed : List UInt8 → Prop
  | nil : WellFormed []
  | cons {s rest : List UInt8} {n : Nat} (h : Sequence s n) (hrest : WellFormed rest) :
      WellFormed (s ++ rest)

/-- No sequence stands at the head of the bytes. -/
def Broken (bytes : List UInt8) : Prop := ∀ s n, Sequence s n → ¬ s <+: bytes

/-- The characters that bytes stand for. Where no sequence begins one byte is passed over. -/
inductive Decodes : List UInt8 → List Char → Prop
  | nil : Decodes [] []
  | char {s rest : List UInt8} {c : Char} {cs : List Char} (h : Sequence s c.toNat)
      (hrest : Decodes rest cs) : Decodes (s ++ rest) (c :: cs)
  | stray {b : UInt8} {rest : List UInt8} {cs : List Char}
      (h : Broken (b :: rest)) (hrest : Decodes rest cs) :
      Decodes (b :: rest) (replacement :: cs)

/-! ### Sequences are encodings of characters -/

lemma toNat_ofNat {x : Nat} (h : x < 256) : (UInt8.ofNat x).toNat = x :=
  UInt8.toNat_ofNat_of_lt' h

lemma ofNat_eq {x : Nat} {b : UInt8} (h : x = b.toNat) : UInt8.ofNat x = b := by
  rw [h, UInt8.ofNat_toNat]

/-- Characters are the code points up to 0x10ffff but for the surrogates. -/
lemma toNat_valid (c : Char) : c.toNat < 0xd800 ∨ 0xdfff < c.toNat ∧ c.toNat < 0x110000 := c.valid

lemma Sequence.of_eq {s : List UInt8} {m n : Nat} (h : Sequence s m) (hm : m = n) :
    Sequence s n := hm ▸ h

lemma toNat_tail (m : Nat) : (UInt8.ofNat (m % 64 + 0x80)).toNat = m % 64 + 0x80 :=
  toNat_ofNat (by omega)

lemma isTail_tail (m : Nat) : IsTail (UInt8.ofNat (m % 64 + 0x80)) := by
  rw [IsTail, toNat_tail m]
  omega

lemma tailBits_eq {b : UInt8} {m : Nat} (h : b.toNat = m + 0x80) : tailBits b = m := by
  have hbits : tailBits b = b.toNat - 0x80 := rfl
  omega

lemma tailBits_tail (m : Nat) : tailBits (UInt8.ofNat (m % 64 + 0x80)) = m % 64 :=
  tailBits_eq (toNat_tail m)

lemma sequence_encodeChar (c : Char) : Sequence (String.utf8EncodeChar c) c.toNat := by
  have hvalid := toNat_valid c
  have hval : c.val.toNat = c.toNat := rfl
  simp only [String.utf8EncodeChar, hval]
  generalize c.toNat = n at hvalid ⊢
  split_ifs with hone htwo hthree
  · have hn : (UInt8.ofNat n).toNat = n := toNat_ofNat (by omega)
    have hsequence := Sequence.one (a := UInt8.ofNat n) (by omega)
    rwa [hn] at hsequence
  · have ha : (UInt8.ofNat (n / 64 % 32 + 0xc0)).toNat = n / 64 % 32 + 0xc0 :=
      toNat_ofNat (by omega)
    have hsequence := Sequence.two (by omega) (by omega) (isTail_tail n)
      (a := UInt8.ofNat (n / 64 % 32 + 0xc0))
    rw [ha, tailBits_tail] at hsequence
    exact hsequence.of_eq (by omega)
  · have ha : (UInt8.ofNat (n / 4096 % 16 + 0xe0)).toNat = n / 4096 % 16 + 0xe0 :=
      toNat_ofNat (by omega)
    have hb := toNat_tail (n / 64)
    have hsequence := Sequence.three (by omega) (by omega) (by omega) (by omega)
      (isTail_tail (n / 64)) (isTail_tail n) (a := UInt8.ofNat (n / 4096 % 16 + 0xe0))
    rw [ha, tailBits_tail, tailBits_tail] at hsequence
    exact hsequence.of_eq (by omega)
  · have ha : (UInt8.ofNat (n / 262144 % 8 + 0xf0)).toNat = n / 262144 % 8 + 0xf0 :=
      toNat_ofNat (by omega)
    have hb := toNat_tail (n / 4096)
    have hsequence := Sequence.four (by omega) (by omega) (by omega) (by omega)
      (isTail_tail (n / 4096)) (isTail_tail (n / 64)) (isTail_tail n)
      (a := UInt8.ofNat (n / 262144 % 8 + 0xf0))
    rw [ha, tailBits_tail, tailBits_tail, tailBits_tail] at hsequence
    exact hsequence.of_eq (by omega)

/-- The character of a code point that is none of a surrogate. -/
lemma exists_char {n : Nat} (h : n < 0xd800 ∨ 0xdfff < n ∧ n < 0x110000) :
    ∃ c : Char, c.val.toNat = n :=
  ⟨Char.ofNatAux n h, rfl⟩

lemma Sequence.exists_char {s : List UInt8} {n : Nat} (h : Sequence s n) :
    ∃ c : Char, c.toNat = n ∧ s = String.utf8EncodeChar c := by
  cases h with
  | @one a ha =>
    obtain ⟨c, hc⟩ := Utf8.exists_char (n := a.toNat) (by omega)
    refine ⟨c, hc, ?_⟩
    simp only [String.utf8EncodeChar, hc, if_pos ha, UInt8.ofNat_toNat]
  | @two a b low high hb =>
    obtain ⟨hb₁, hb₂⟩ := hb
    have hbits : tailBits b = b.toNat - 0x80 := rfl
    generalize hn : (a.toNat - 0xc0) * 64 + tailBits b = n
    obtain ⟨c, hc⟩ := Utf8.exists_char (n := n) (by omega)
    refine ⟨c, hc, ?_⟩
    simp only [String.utf8EncodeChar, hc]
    rw [if_neg (by omega), if_pos (by omega), ofNat_eq (b := a) (by omega),
      ofNat_eq (b := b) (by omega)]
  | @three a b c low high overlong surrogate hb hc =>
    obtain ⟨hb₁, hb₂⟩ := hb
    obtain ⟨hc₁, hc₂⟩ := hc
    have hbits : tailBits b = b.toNat - 0x80 ∧ tailBits c = c.toNat - 0x80 := ⟨rfl, rfl⟩
    generalize hn : (a.toNat - 0xe0) * 4096 + tailBits b * 64 + tailBits c = n
    obtain ⟨ch, hch⟩ := Utf8.exists_char (n := n) (by omega)
    refine ⟨ch, hch, ?_⟩
    simp only [String.utf8EncodeChar, hch]
    rw [if_neg (by omega), if_neg (by omega), if_pos (by omega), ofNat_eq (b := a) (by omega),
      ofNat_eq (b := b) (by omega), ofNat_eq (b := c) (by omega)]
  | @four a b c d low high overlong great hb hc hd =>
    obtain ⟨hb₁, hb₂⟩ := hb
    obtain ⟨hc₁, hc₂⟩ := hc
    obtain ⟨hd₁, hd₂⟩ := hd
    have hbits : tailBits b = b.toNat - 0x80 ∧ tailBits c = c.toNat - 0x80 ∧
        tailBits d = d.toNat - 0x80 := ⟨rfl, rfl, rfl⟩
    generalize hn : (a.toNat - 0xf0) * 262144 + tailBits b * 4096 + tailBits c * 64 + tailBits d = n
    obtain ⟨ch, hch⟩ := Utf8.exists_char (n := n) (by omega)
    refine ⟨ch, hch, ?_⟩
    simp only [String.utf8EncodeChar, hch]
    rw [if_neg (by omega), if_neg (by omega), if_neg (by omega), ofNat_eq (b := a) (by omega),
      ofNat_eq (b := b) (by omega), ofNat_eq (b := c) (by omega), ofNat_eq (b := d) (by omega)]

/-- The bytes of a sequence are far from those of ASCII, unless it is one of these. -/
lemma Sequence.length_eq_one_or {s : List UInt8} {n : Nat} (h : Sequence s n) :
    s.length = 1 ∨ ∀ b ∈ s, 0x80 ≤ b.toNat := by
  cases h with
  | one _ => exact .inl rfl
  | two low _ hb =>
    refine .inr (List.forall_mem_cons.mpr ⟨by omega, List.forall_mem_singleton.mpr hb.1⟩)
  | three low _ _ _ hb hc =>
    refine .inr (List.forall_mem_cons.mpr ⟨by omega, List.forall_mem_cons.mpr ⟨hb.1,
      List.forall_mem_singleton.mpr hc.1⟩⟩)
  | four low _ _ _ hb hc hd =>
    refine .inr (List.forall_mem_cons.mpr ⟨by omega, List.forall_mem_cons.mpr ⟨hb.1,
      List.forall_mem_cons.mpr ⟨hc.1, List.forall_mem_singleton.mpr hd.1⟩⟩⟩)

/-! ### Pieces of bytes -/

/-- Reading does not look at what stands before it. -/
lemma piecesFrom_append_add (front back : ByteArray) (i : Nat) :
    piecesFrom (front ++ back) (front.size + i) = piecesFrom back i := by
  have hextract (j : Nat) : (front ++ back).extract (front.size + j) (front ++ back).size =
      back.extract j back.size := by
    rw [ByteArray.size_append, ByteArray.extract_append_size_add]
  have hdecode (j : Nat) :
      (front ++ back).utf8DecodeChar? (front.size + j) = back.utf8DecodeChar? j := by
    rw [ByteArray.utf8DecodeChar?_eq_utf8DecodeChar?_extract, hextract,
      ← ByteArray.utf8DecodeChar?_eq_utf8DecodeChar?_extract]
  have hget (j : Nat) : (front ++ back)[front.size + j]? = back[j]? := by
    by_cases hlt : j < back.size
    · rw [getElem?_pos _ _ (by rw [ByteArray.size_append]; omega), getElem?_pos back _ hlt,
        ByteArray.getElem_append_right (by omega)]
      simp only [Nat.add_sub_cancel_left]
    · rw [getElem?_neg _ _ (by rw [ByteArray.size_append]; omega), getElem?_neg back _ hlt]
  fun_induction piecesFrom back i with
  | case1 i hlt c hc ih =>
    rw [piecesFrom, if_pos (by rw [ByteArray.size_append]; omega), hdecode, hc]
    simp only
    rw [Nat.add_assoc, ih]
  | case2 i hlt hc b hb ih =>
    rw [piecesFrom, if_pos (by rw [ByteArray.size_append]; omega), hdecode, hc, hget, hb]
    simp only
    rw [Nat.add_assoc, ih]
  | case3 i hlt hc hb =>
    rw [piecesFrom, if_pos (by rw [ByteArray.size_append]; omega), hdecode, hc, hget, hb]
  | case4 i hle => rw [piecesFrom, if_neg (by rw [ByteArray.size_append]; omega)]

lemma pieces_encodeChar (c : Char) (rest : List UInt8) :
    pieces (String.utf8EncodeChar c ++ rest).toByteArray = .char c :: pieces rest.toByteArray := by
  have hchar : (String.utf8EncodeChar c ++ rest).toByteArray.utf8DecodeChar? 0 = some c := by
    rw [List.toByteArray_append]
    exact ByteArray.utf8DecodeChar?_utf8EncodeChar_append
  have hlt := ByteArray.lt_size_of_isSome_utf8DecodeChar? (by rw [hchar]; rfl)
  rw [pieces, piecesFrom, if_pos hlt, hchar]
  simp only
  have hsize : 0 + c.utf8Size = (String.utf8EncodeChar c).toByteArray.size + 0 := by
    simp
  rw [hsize, List.toByteArray_append, piecesFrom_append_add, pieces]

lemma toByteArray_toList (bytes : ByteArray) : bytes.data.toList.toByteArray = bytes := by
  apply ByteArray.ext
  rw [List.data_toByteArray, Array.toArray_toList]

/-- Where a character is decoded, its encoding is what the bytes begin with. -/
lemma exists_of_decodeChar {bytes : List UInt8} {c : Char}
    (h : bytes.toByteArray.utf8DecodeChar? 0 = some c) :
    ∃ rest, bytes = String.utf8EncodeChar c ++ rest := by
  obtain ⟨rest, hrest⟩ := ByteArray.exists_of_utf8DecodeChar?_eq_some h
  refine ⟨rest.data.toList, ?_⟩
  rw [← List.toByteArray_inj, hrest, List.toByteArray_append, toByteArray_toList]

lemma decodeChar_eq_none {bytes : List UInt8} (h : Broken bytes) :
    bytes.toByteArray.utf8DecodeChar? 0 = none := by
  by_contra hsome
  obtain ⟨c, hc⟩ := Option.ne_none_iff_exists'.mp hsome
  obtain ⟨rest, rfl⟩ := exists_of_decodeChar hc
  exact h _ _ (sequence_encodeChar c) (List.prefix_append _ rest)

lemma pieces_stray {b : UInt8} {rest : List UInt8} (h : Broken (b :: rest)) :
    pieces (b :: rest).toByteArray = .stray b :: pieces rest.toByteArray := by
  have hsplit : (b :: rest).toByteArray = [b].toByteArray ++ rest.toByteArray := by
    rw [← List.toByteArray_append]
    rfl
  have hget : (b :: rest).toByteArray[0]? = some b := by
    rw [getElem?_pos _ _ (by simp), List.getElem_toByteArray]
    rfl
  rw [pieces, piecesFrom, if_pos (by simp), decodeChar_eq_none h, hget]
  simp only
  rw [hsplit]
  exact congrArg _ (piecesFrom_append_add [b].toByteArray rest.toByteArray 0)

/-- Bytes are read piece by piece, each an encoded character or a byte at which none begins. -/
theorem pieces_induction {motive : List UInt8 → List Piece → Prop} (nil : motive [] [])
    (char : ∀ c rest ps, motive rest ps → motive (String.utf8EncodeChar c ++ rest) (.char c :: ps))
    (stray : ∀ b rest ps, Broken (b :: rest) → motive rest ps →
      motive (b :: rest) (.stray b :: ps)) :
    ∀ bytes : List UInt8, motive bytes (pieces bytes.toByteArray)
  | [] => by
    rw [pieces, piecesFrom, if_neg (by simp)]
    exact nil
  | b :: rest => by
    by_cases hbroken : Broken (b :: rest)
    · rw [pieces_stray hbroken]
      exact stray _ _ _ hbroken (pieces_induction nil char stray rest)
    · simp only [Broken, not_forall, not_not] at hbroken
      obtain ⟨s, n, hs, rest', hrest⟩ := hbroken
      obtain ⟨c, -, rfl⟩ := hs.exists_char
      have hlt : rest'.length < (b :: rest).length := by
        have := c.utf8Size_pos
        rw [← hrest, List.length_append, String.length_utf8EncodeChar]
        omega
      rw [← hrest, pieces_encodeChar]
      exact char _ _ _ (pieces_induction nil char stray rest')
termination_by bytes => bytes.length
decreasing_by
  · exact Nat.lt_succ_self _
  · exact hlt

lemma pieces_toUTF8 (text : String) : pieces text.toUTF8 = text.toList.map .char := by
  have hpieces := piecesFrom_append .empty text.toList
  rwa [ByteArray.empty_append, String.utf8Encode_toList, ByteArray.size_empty] at hpieces

/-! ### Decoding and encoding -/

lemma toList_decode (bytes : ByteArray) : (decode bytes).toList = (pieces bytes).map Piece.shown :=
  String.toList_ofList

/-- The characters that bytes stand for are those that decoding yields, and no others. -/
theorem decodes_iff (bytes : ByteArray) (cs : List Char) :
    Decodes bytes.data.toList cs ↔ cs = (decode bytes).toList := by
  have hshown (bytes : List UInt8) :
      Decodes bytes ((pieces bytes.toByteArray).map Piece.shown) :=
    pieces_induction (motive := fun bytes ps => Decodes bytes (ps.map Piece.shown)) .nil
      (fun c _ _ hrest => .char (sequence_encodeChar c) hrest) (fun _ _ _ h hrest => .stray h hrest)
      bytes
  have hunique {bytes : List UInt8} {cs : List Char} (h : Decodes bytes cs) :
      cs = (pieces bytes.toByteArray).map Piece.shown := by
    induction h with
    | nil =>
      rw [pieces, piecesFrom, if_neg (by simp)]
      rfl
    | @char s rest c cs hs _ ih =>
      obtain ⟨c', hc, rfl⟩ := hs.exists_char
      obtain rfl : c' = c := Char.toNat_inj.mp hc
      rw [pieces_encodeChar, List.map_cons, ← ih]
      rfl
    | @stray b rest cs h _ ih =>
      rw [pieces_stray h, List.map_cons, ← ih]
      rfl
  rw [toList_decode, ← toByteArray_toList bytes, List.toList_data_toByteArray]
  exact ⟨hunique, fun h => h ▸ hshown _⟩

/-- The bytes of a text are well formed. -/
theorem wellFormed_utf8 (text : String) : WellFormed (utf8 text) := by
  rw [utf8_eq_flatMap]
  induction text.toList with
  | nil => exact .nil
  | cons c cs ih => exact .cons (sequence_encodeChar c) ih

/-- Well-formed bytes are the bytes of a text. -/
lemma WellFormed.exists_utf8 {bytes : List UInt8} (h : WellFormed bytes) :
    ∃ text, utf8 text = bytes := by
  induction h with
  | nil => exact ⟨"", rfl⟩
  | cons hs _ ih =>
    obtain ⟨c, -, rfl⟩ := hs.exists_char
    obtain ⟨text, rfl⟩ := ih
    refine ⟨String.ofList (c :: text.toList), ?_⟩
    rw [utf8_eq_flatMap, utf8_eq_flatMap, String.toList_ofList, List.flatMap_cons]

lemma decode_encode (text : String) : decode (encode text) = text :=
  decode_toUTF8 text

lemma encode_decode {bytes : ByteArray} (h : WellFormed bytes.data.toList) :
    encode (decode bytes) = bytes := by
  obtain ⟨text, htext⟩ := h.exists_utf8
  have hbytes : bytes = encode text := by
    rw [← toByteArray_toList bytes, ← htext]
    exact toByteArray_toList _
  rw [hbytes, decode_encode]

end HiToolchain.Utf8
