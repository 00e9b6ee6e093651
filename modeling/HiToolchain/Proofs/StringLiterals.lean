import HiToolchain.Kinds.Lexeme
import HiToolchain.Proofs.ByteSequences
import HiToolchain.Proofs.ScalarTexts
import HiToolchain.Proofs.SingleAssignment

/-!
# String literals and the bytes they denote

The literals of the declaration language by what they denote: text between double quotes with its
escapes, and raw text between backquotes. Scanning finds the end of such a literal, its value is
what it denotes, and bytes that are quoted are denoted again.
-/

namespace HiToolchain.StringLiteral

/-! ### What literals denote -/

/-- The escapes of one letter with the byte that each stands for. -/
def shortEscapes : List (Char × UInt8) :=
  [('a', 0x07), ('b', 0x08), ('t', 0x09), ('n', 0x0a), ('v', 0x0b), ('f', 0x0c), ('r', 0x0d),
    ('"', 0x22), ('\\', 0x5c)]

/-- The characters of an escape behind its backslash, and the bytes that it denotes. -/
inductive Escape : List Char → List UInt8 → Prop
  | short {e : Char} {b : UInt8} (h : (e, b) ∈ shortEscapes) : Escape [e] [b]
  | byte {ds : List Char} {n : Nat} (hlength : ds.length = 2) (h : hexNumber? ds = some n) :
      Escape ('x' :: ds) [UInt8.ofNat n]
  | code {e c : Char} {width : Nat} {ds : List Char}
      (he : e = 'u' ∧ width = 4 ∨ e = 'U' ∧ width = 8) (hlength : ds.length = width)
      (h : hexNumber? ds = some c.toNat) :
      Escape (e :: ds) (String.utf8EncodeChar c)
  | octal {ds : List Char} (hlength : ds.length = 3) (hds : ∀ d ∈ ds, isOctal d)
      (h : octalNumber ds < 256) : Escape ds [UInt8.ofNat (octalNumber ds)]

/-- What stands between double quotes, and the bytes that it denotes. -/
inductive Denotes : List Char → List UInt8 → Prop
  | nil : Denotes [] []
  | plain {c : Char} {w : List Char} {bytes : List UInt8} (hquote : c ≠ '"') (hbackslash : c ≠ '\\')
      (hline : c ≠ '\n') (hnul : c ≠ Char.ofNat 0) (h : Denotes w bytes) :
      Denotes (c :: w) (String.utf8EncodeChar c ++ bytes)
  | escape {e w : List Char} {bytes more : List UInt8} (he : Escape e bytes)
      (h : Denotes w more) : Denotes ('\\' :: (e ++ w)) (bytes ++ more)

/-- The literals of strings, with the bytes that they denote. -/
inductive Literal : List Char → List UInt8 → Prop
  | interpreted {w : List Char} {bytes : List UInt8} (h : Denotes w bytes) :
      Literal ('"' :: (w ++ ['"'])) bytes
  | raw {w : List Char} (hquote : '`' ∉ w) (hnul : Char.ofNat 0 ∉ w) :
      Literal ('`' :: (w ++ ['`'])) ((w.filter (· ≠ '\r')).flatMap String.utf8EncodeChar)

/-- Where nothing is escaped a text denotes itself. -/
lemma denotes_plain {w : List Char} (h : ∀ c ∈ w, c ∉ ['"', '\\', '\n', Char.ofNat 0]) :
    Denotes w (w.flatMap String.utf8EncodeChar) := by
  induction w with
  | nil => exact .nil
  | cons c w ih =>
    obtain ⟨hc, hw⟩ := List.forall_mem_cons.mp h
    simp only [List.mem_cons, List.not_mem_nil, or_false, not_or] at hc
    exact .plain hc.1 hc.2.1 hc.2.2.1 hc.2.2.2 (ih hw)

/-! ### Scanning -/

lemma hexValue?_isSome {ds : List Char} {n : Nat} (h : hexNumber? ds = some n) :
    ∀ d ∈ ds, (hexValue? d).isSome := by
  induction ds using List.reverseRecOn generalizing n with
  | nil => simp
  | append_singleton ds d ih =>
    rw [Yaml.hexNumber?_concat] at h
    obtain ⟨m, hm, hd⟩ := Option.bind_eq_some_iff.mp h
    obtain ⟨v, hv, -⟩ := Option.bind_eq_some_iff.mp hd
    intro d' hd'
    obtain hd' | hd' := List.mem_append.mp hd'
    · exact ih hm d' hd'
    · rw [List.mem_singleton.mp hd', hv]
      rfl

lemma not_letter_of_isOctal {d : Char} (h : isOctal d) :
    d ≠ '"' ∧ shortEscape? d = none ∧ codeLength? d = none := by
  refine ⟨?_, ?_, ?_⟩
  · rintro rfl
    exact absurd h (by decide)
  · unfold shortEscape?
    split <;> first | rfl | exact absurd h (by decide)
  · unfold codeLength?
    split <;> first | rfl | exact absurd h (by decide)

lemma not_letter_of_codeLength {e : Char} {width : Nat} (h : codeLength? e = some width) :
    e ≠ '"' ∧ shortEscape? e = none := by
  unfold codeLength? at h
  split at h <;> first | exact ⟨by decide, rfl⟩ | cases h

lemma scan_code {e : Char} {width : Nat} {ds : List Char} (hwidth : codeLength? e = some width)
    (hlength : ds.length = width) (hds : ∀ d ∈ ds, (hexValue? d).isSome) (rest : List Char) :
    Kinds.escape '"' (e :: (ds ++ rest)) = .clean (width + 1) := by
  obtain ⟨hquote, hshort⟩ := not_letter_of_codeLength hwidth
  simp [Kinds.escape, hquote, hshort, hwidth, List.take_left' hlength,
    List.takeWhile_eq_self_iff.mpr hds, hlength, Nat.add_comm]

/-- An escape is scanned whole, whatever follows it. -/
lemma Escape.scan {e : List Char} {bytes : List UInt8} (h : Escape e bytes) (rest : List Char) :
    Kinds.escape '"' (e ++ rest) = .clean e.length := by
  cases h with
  | @short e b h =>
    have hshort : ∀ p ∈ shortEscapes, (p.1 == '"' || (shortEscape? p.1).isSome) = true := by decide
    simp only [Kinds.escape, List.cons_append, List.nil_append]
    rw [if_pos (hshort _ h)]
    rfl
  | byte hlength h =>
    rw [List.cons_append, scan_code rfl hlength (hexValue?_isSome h), List.length_cons, hlength]
  | @code e c width ds he hlength h =>
    have hwidth : codeLength? e = some width := by
      obtain ⟨rfl, rfl⟩ | ⟨rfl, rfl⟩ := he <;> rfl
    rw [List.cons_append, scan_code hwidth hlength (hexValue?_isSome h), List.length_cons, hlength]
  | octal hlength hds h =>
    obtain ⟨d, ds, rfl⟩ := List.exists_cons_of_length_eq_add_one hlength
    obtain ⟨hquote, hshort, hcode⟩ := not_letter_of_isOctal (hds d (List.mem_cons_self))
    have htake : (d :: (ds ++ rest)).take 3 = d :: ds := List.take_left' hlength
    simp [Kinds.escape, hquote, hshort, hcode, hds d (List.mem_cons_self), htake,
      List.takeWhile_eq_self_iff.mpr hds, hlength]

lemma Escape.not_mem_line {e : List Char} {bytes : List UInt8} (h : Escape e bytes) : '\n' ∉ e := by
  have hdigits {ds : List Char} {n : Nat} (h : hexNumber? ds = some n) : '\n' ∉ ds :=
    fun hmem => absurd (hexValue?_isSome h _ hmem) (by decide)
  cases h with
  | @short e b h =>
    have hshort : ∀ p ∈ shortEscapes, '\n' ∉ [p.1] := by decide
    exact hshort _ h
  | byte _ h => exact List.not_mem_cons_of_ne_of_not_mem (by decide) (hdigits h)
  | code he _ h =>
    refine List.not_mem_cons_of_ne_of_not_mem ?_ (hdigits h)
    obtain ⟨rfl, -⟩ | ⟨rfl, -⟩ := he <;> decide
  | octal _ hds _ => exact fun hmem => absurd (hds _ hmem) (by decide)

lemma Denotes.not_mem_line {w : List Char} {bytes : List UInt8} (h : Denotes w bytes) :
    '\n' ∉ w := by
  induction h with
  | nil => exact List.not_mem_nil
  | plain _ _ hline _ _ ih => exact List.not_mem_cons_of_ne_of_not_mem hline.symm ih
  | escape he _ ih =>
    refine List.not_mem_cons_of_ne_of_not_mem (by decide) fun hmem => ?_
    exact (List.mem_append.mp hmem).elim he.not_mem_line ih

/-- What stands between double quotes is scanned up to the closing quote. -/
lemma Denotes.scan {w : List Char} {bytes : List UInt8} (h : Denotes w bytes) (rest : List Char) :
    Kinds.literalBody '"' (w ++ '"' :: rest) = .clean (w.length + 1) := by
  induction h with
  | nil =>
    rw [List.nil_append, Kinds.literalBody]
    rfl
  | @plain c w bytes hquote hbackslash hline hnul _ ih =>
    rw [List.cons_append, Kinds.literalBody]
    simp only [beq_iff_eq, hquote, hbackslash, hline, if_false, ih]
    simp [Kinds.Extent.shift, Kinds.Extent.clean, Nat.add_comm]
  | @escape e w bytes more he _ ih =>
    rw [List.cons_append, List.append_assoc, Kinds.literalBody]
    have hdrop : (e ++ (w ++ '"' :: rest)).drop e.length = w ++ '"' :: rest := List.drop_left
    simp only [he.scan, Kinds.Extent.clean] at *
    rw [hdrop, ih]
    simp [Kinds.Extent.shift, Kinds.Extent.append]
    omega

/-! ### Values -/

/-- The bytes of pieces, as a list. -/
def pieceBytes (ps : List Utf8.Piece) : List UInt8 := ps.flatMap fun p => p.bytes.data.toList

lemma pieceBytes_cons (p : Utf8.Piece) (ps : List Utf8.Piece) :
    pieceBytes (p :: ps) = p.bytes.data.toList ++ pieceBytes ps := List.flatMap_cons

lemma bytes_char (c : Char) : (Utf8.Piece.char c).bytes.data.toList = String.utf8EncodeChar c := by
  change utf8 c.toString = _
  rw [utf8_eq_flatMap, Char.toString_eq_singleton, String.toList_singleton]
  simp

lemma join_eq (ps : List Utf8.Piece) : Utf8.join ps = (pieceBytes ps).toByteArray := by
  have hfold (front : ByteArray) : ps.foldl (fun bytes p => bytes ++ p.bytes) front =
      front ++ (pieceBytes ps).toByteArray := by
    induction ps generalizing front with
    | nil => simp [pieceBytes]
    | cons p ps ih =>
      rw [List.foldl_cons, ih, pieceBytes_cons, List.toByteArray_append,
        Utf8.toByteArray_toList, ByteArray.append_assoc]
  rw [Utf8.join, hfold, ByteArray.empty_append]

lemma leadingChars_map (cs : List Char) : leadingChars (cs.map .char) = cs := by
  induction cs with
  | nil => rfl
  | cons c cs ih => rw [List.map_cons, leadingChars, ih]

lemma escape?_code {e : Char} {width n : Nat} {ds : List Char} (hwidth : codeLength? e = some width)
    (hlength : ds.length = width) (h : hexNumber? ds = some n) (rest : List Char) :
    escape? '"' ((e :: (ds ++ rest)).take 9) =
      if e == 'x' then some (.stray (.ofNat n), 3)
      else if n.isValidChar then some (.char (Char.ofNat n), 1 + width) else none := by
  obtain ⟨hquote, hshort⟩ := not_letter_of_codeLength hwidth
  have hle : width ≤ 8 := by
    unfold codeLength? at hwidth
    split at hwidth <;> cases hwidth <;> decide
  have htake : ((ds ++ rest).take 8).take width = ds := by
    rw [List.take_take, Nat.min_eq_left hle, List.take_left' hlength]
  simp [escape?, hquote, hshort, hwidth, htake, hlength, h]

/-- The piece that an escape gives, found within the characters that are looked at. -/
lemma Escape.piece {e : List Char} {bytes : List UInt8} (h : Escape e bytes) (rest : List Char) :
    ∃ p, escape? '"' ((e ++ rest).take 9) = some (p, e.length) ∧ p.bytes.data.toList = bytes := by
  cases h with
  | @short e b h =>
    simp only [shortEscapes, List.mem_cons, Prod.mk.injEq, List.not_mem_nil, or_false] at h
    rcases h with ⟨rfl, rfl⟩ | ⟨rfl, rfl⟩ | ⟨rfl, rfl⟩ | ⟨rfl, rfl⟩ | ⟨rfl, rfl⟩ | ⟨rfl, rfl⟩ |
      ⟨rfl, rfl⟩ | ⟨rfl, rfl⟩ | ⟨rfl, rfl⟩
    all_goals exact ⟨.char _, rfl, bytes_char _⟩
  | @byte ds n hlength h =>
    refine ⟨.stray (.ofNat n), ?_, rfl⟩
    rw [List.cons_append, escape?_code rfl hlength h, List.length_cons, hlength]
    rfl
  | @code e c width ds he hlength h =>
    refine ⟨.char c, ?_, bytes_char c⟩
    have hwidth : codeLength? e = some width ∧ (e == 'x') = false := by
      obtain ⟨rfl, rfl⟩ | ⟨rfl, rfl⟩ := he <;> exact ⟨rfl, rfl⟩
    have hvalid : c.toNat.isValidChar := c.valid
    rw [List.cons_append, escape?_code hwidth.1 hlength h, hwidth.2, if_pos hvalid,
      Char.ofNat_toNat, List.length_cons, hlength, Nat.add_comm]
    rfl
  | octal hlength hds h =>
    refine ⟨.stray (.ofNat (octalNumber e)), ?_, rfl⟩
    obtain ⟨d, ds, rfl⟩ := List.exists_cons_of_length_eq_add_one hlength
    obtain ⟨hquote, hshort, hcode⟩ := not_letter_of_isOctal (hds d List.mem_cons_self)
    have htake : ((d :: (ds ++ rest)).take 9).take 3 = d :: ds := by
      rw [List.take_take]
      exact List.take_left' hlength
    have hall : (d :: ds).all isOctal := List.all_eq_true.mpr hds
    rw [List.take_succ_cons] at htake
    simp only [List.cons_append, List.take_succ_cons, escape?, beq_iff_eq, hquote, if_false, hshort,
      hcode, htake, hlength]
    simp [hall, h]

lemma body?_skip (quote : Char) (front rest : List Utf8.Piece) :
    body? quote front.length (front ++ rest) = body? quote 0 rest := by
  induction front with
  | nil => rfl
  | cons p front ih => exact ih

/-- The closing quote is the last character. -/
lemma Denotes.body? {w : List Char} {bytes : List UInt8} (h : Denotes w bytes) :
    ∃ ps, body? '"' 0 ((w ++ ['"']).map .char) = some ps ∧ pieceBytes ps = bytes := by
  induction h with
  | nil => exact ⟨[], rfl, rfl⟩
  | @plain c w bytes hquote hbackslash hline _ _ ih =>
    obtain ⟨ps, hps, rfl⟩ := ih
    refine ⟨.char c :: ps, ?_, ?_⟩
    · simp only [List.cons_append, List.map_cons, StringLiteral.body?, beq_iff_eq, hquote,
        hbackslash, hline, if_false, hps, Option.map_some]
    · rw [pieceBytes_cons, bytes_char]
  | @escape e w bytes more he _ ih =>
    obtain ⟨ps, hps, rfl⟩ := ih
    obtain ⟨p, hp, rfl⟩ := he.piece (w ++ ['"'])
    refine ⟨p :: ps, ?_, pieceBytes_cons p ps⟩
    have hskip := body?_skip '"' (e.map .char) ((w ++ ['"']).map .char)
    rw [List.length_map, ← List.map_append, hps] at hskip
    simp only [List.cons_append, List.append_assoc, List.map_cons, StringLiteral.body?]
    rw [← List.map_take, leadingChars_map, hp]
    exact congrArg (Option.map (p :: ·)) hskip

/-- The value of a literal between double quotes is what it denotes. -/
lemma Denotes.value? {w : List Char} {bytes : List UInt8} (h : Denotes w bytes) :
    value? (String.ofList ('"' :: (w ++ ['"']))).toUTF8 = some bytes.toByteArray := by
  obtain ⟨ps, hps, rfl⟩ := h.body?
  rw [StringLiteral.value?, Utf8.pieces_toUTF8, String.toList_ofList, List.map_cons]
  simp only [hps, Option.map_some, join_eq]

/-! ### Quoted bytes -/

lemma hexNumber?_map_toUpper {ds : List Char} (h : ∀ d ∈ ds, hexValue? d.toUpper = hexValue? d) :
    hexNumber? (ds.map Char.toUpper) = hexNumber? ds := by
  induction ds using List.reverseRecOn with
  | nil => rfl
  | append_singleton ds d ih =>
    rw [List.map_append, List.map_singleton, Yaml.hexNumber?_concat, Yaml.hexNumber?_concat,
      ih fun d' hd' => h d' (List.mem_append_left _ hd'), h d (by simp)]

lemma hexNumber?_hexPadded (width n : Nat) : hexNumber? (hexPadded width n).toList = some n := by
  have hcase : ∀ d : Fin 16, hexValue? d.val.digitChar.toUpper = hexValue? d.val.digitChar := by
    decide
  have hdigits : ∀ d ∈ Nat.toDigits 16 n, hexValue? d.toUpper = hexValue? d := by
    intro d hd
    obtain ⟨m, hm, rfl⟩ := Ir.exists_digitChar_of_mem_toDigits n d hd
    exact hcase ⟨m, hm⟩
  rw [hexPadded, String.toList_ofList, Yaml.hexNumber?_zeros, ← hexNumber?_map_toUpper hdigits,
    Yaml.hexNumber?_toDigits]

lemma length_hexPadded {width n : Nat} (hwidth : 0 < width) (hn : n < 16 ^ width) :
    (hexPadded width n).toList.length = width := by
  have hlength := (Nat.length_toDigits_le_iff (by decide) hwidth).mpr hn
  rw [hexPadded, String.toList_ofList, List.length_append, List.length_replicate]
  omega

lemma encodeChar_of_ascii {c : Char} (h : c.toNat < 0x80) :
    String.utf8EncodeChar c = [UInt8.ofNat c.toNat] := by
  have hval : c.val.toNat = c.toNat := rfl
  simp only [String.utf8EncodeChar, hval]
  rw [if_pos (by omega)]

/-- A control character with an escape of its own. -/
lemma mem_shortEscapes {c letter : Char} (h : Quoted.shortEscape? c = some letter) :
    (letter, UInt8.ofNat c.toNat) ∈ shortEscapes ∧ c.toNat < 0x80 := by
  unfold Quoted.shortEscape? at h
  split at h
  case h_8 => cases h
  all_goals
    rename_i hc
    cases h
    rw [hc]
    decide

lemma not_printable_nul : isPrintable (Char.ofNat 0) = false := by
  have hpositive : ∀ r ∈ printableRanges.toList, 0 < r.1 := by decide +kernel
  rw [Bool.eq_false_iff, isPrintable, Ne, inRanges_iff]
  rintro ⟨r, hr, hlow, -⟩
  exact absurd hlow (not_le.mpr (hpositive r hr))

lemma Escape.codeEscape (c : Char) : ∃ e, (Quoted.codeEscape c).toList = '\\' :: e ∧
    Escape e (String.utf8EncodeChar c) := by
  have hvalid := Utf8.toNat_valid c
  unfold Quoted.codeEscape
  dsimp only
  split_ifs with hcontrol hshort
  · have hlt : c.toNat < 0x80 := by
      simp only [Bool.or_eq_true, decide_eq_true_eq, beq_iff_eq] at hcontrol
      omega
    refine ⟨'x' :: (hexPadded 2 c.toNat).toList, String.toList_append, ?_⟩
    rw [encodeChar_of_ascii hlt]
    exact .byte (length_hexPadded (by decide) (by omega)) (hexNumber?_hexPadded 2 _)
  · exact ⟨'u' :: (hexPadded 4 c.toNat).toList, String.toList_append,
      .code (.inl ⟨rfl, rfl⟩) (length_hexPadded (by decide) hshort) (hexNumber?_hexPadded 4 _)⟩
  · exact ⟨'U' :: (hexPadded 8 c.toNat).toList, String.toList_append,
      .code (.inr ⟨rfl, rfl⟩) (length_hexPadded (by decide) (by omega)) (hexNumber?_hexPadded 8 _)⟩

lemma Denotes.escapeChar {w : List Char} {bytes : List UInt8} (h : Denotes w bytes) (c : Char) :
    Denotes ((Quoted.escapeChar c).toList ++ w) (String.utf8EncodeChar c ++ bytes) := by
  unfold Quoted.escapeChar
  by_cases hself : c = '"' ∨ c = '\\'
  · rw [if_pos (by simpa using hself), String.toList_ofList]
    obtain rfl | rfl := hself
    · exact .escape (e := ['"']) (.short (by decide)) h
    · exact .escape (e := ['\\']) (.short (by decide)) h
  · rw [if_neg (by simpa using hself)]
    rw [not_or] at hself
    cases hletter : Quoted.shortEscape? c with
    | some letter =>
      obtain ⟨hmem, hlt⟩ := mem_shortEscapes hletter
      simp only [String.toList_ofList]
      rw [encodeChar_of_ascii hlt]
      exact .escape (e := [letter]) (.short hmem) h
    | none =>
      dsimp only
      split_ifs with hprintable
      · rw [Char.toString_eq_singleton, String.toList_singleton]
        refine .plain hself.1 hself.2 ?_ ?_ h
        · rintro rfl
          cases hletter
        · rintro rfl
          rw [not_printable_nul] at hprintable
          cases hprintable
      · obtain ⟨e, he, hescape⟩ := Escape.codeEscape c
        rw [he]
        exact .escape hescape h

/-- Bytes between double quotes are denoted by what is written for them. -/
theorem denotes_quotedBytes (bytes : ByteArray) :
    ∃ w, (quotedBytes bytes).toList = '"' :: (w ++ ['"']) ∧ Denotes w bytes.data.toList := by
  have hbody (bytes : List UInt8) : Denotes
      (String.join ((Utf8.pieces bytes.toByteArray).map Quoted.escapePiece)).toList bytes := by
    refine Utf8.pieces_induction (motive := fun bytes ps =>
      Denotes (String.join (ps.map Quoted.escapePiece)).toList bytes) .nil ?_ ?_ bytes
    · intro c rest ps ih
      rw [List.map_cons, String.join_cons, String.toList_append]
      exact ih.escapeChar c
    · intro b rest ps _ ih
      have hlt := b.toNat_lt
      have hbyte : Escape ('x' :: (hexPadded 2 b.toNat).toList) [UInt8.ofNat b.toNat] :=
        .byte (length_hexPadded (by decide) (by omega)) (hexNumber?_hexPadded 2 _)
      rw [UInt8.ofNat_toNat] at hbyte
      rw [List.map_cons, String.join_cons, String.toList_append, Quoted.escapePiece,
        String.toList_append]
      exact .escape hbyte ih
  refine ⟨_, ?_, hbody bytes.data.toList⟩
  rw [Utf8.toByteArray_toList, quotedBytes, String.toList_append, String.toList_append]
  rfl

/-! ### No literal denotes itself -/

lemma pieceBytes_pieces (bytes : List UInt8) :
    pieceBytes (Utf8.pieces bytes.toByteArray) = bytes := by
  refine Utf8.pieces_induction (motive := fun bytes ps => pieceBytes ps = bytes) rfl ?_ ?_ bytes
  · intro c rest ps ih
    rw [pieceBytes_cons, ih, bytes_char]
  · intro b rest ps _ ih
    rw [pieceBytes_cons, ih]
    rfl

/-- The bytes of quotes and of backslashes. -/
def isMark (b : UInt8) : Bool := b == 0x22 || b == 0x27 || b == 0x5c || b == 0x60

/-- How many quotes and backslashes there are in pieces. -/
def marks (ps : List Utf8.Piece) : Nat := (pieceBytes ps).countP isMark

lemma marks_cons (p : Utf8.Piece) (ps : List Utf8.Piece) :
    marks (p :: ps) = p.bytes.data.toList.countP isMark + marks ps := by
  rw [marks, pieceBytes_cons, List.countP_append, marks]

lemma isMark_of_ge {b : UInt8} (h : 0x80 ≤ b.toNat) : isMark b = false := by
  by_contra hmark
  simp only [isMark, Bool.not_eq_false, Bool.or_eq_true, beq_iff_eq] at hmark
  obtain ((rfl | rfl) | rfl) | rfl := hmark <;> exact absurd h (by decide)

lemma marks_piece_le (p : Utf8.Piece) : p.bytes.data.toList.countP isMark ≤ 1 := by
  cases p with
  | stray b => exact List.countP_le_length
  | char c =>
    rw [bytes_char]
    obtain hone | hhigh := (Utf8.sequence_encodeChar c).length_eq_one_or
    · exact List.countP_le_length.trans hone.le
    · rw [List.countP_eq_zero.mpr fun b hb => by rw [isMark_of_ge (hhigh b hb)]; decide]
      exact Nat.zero_le 1

/-- Between quotes every mark of the value was a mark or was escaped by one. -/
lemma marks_body? {quote : Char} (hquote : marks [.char quote] = 1) {skip : Nat}
    {ps qs : List Utf8.Piece} (h : body? quote skip ps = some qs) : marks qs + 1 ≤ marks ps := by
  fun_induction body? quote skip ps generalizing qs with
  | case1 => cases h
  | case2 skip p rest ih =>
    have hrest := ih h
    rw [marks_cons]
    omega
  | case3 b rest ih =>
    obtain ⟨qs, hqs, rfl⟩ := Option.map_eq_some_iff.mp h
    have hrest := ih hqs
    have hzero : (Utf8.Piece.char Utf8.replacement).bytes.data.toList.countP isMark = 0 := by
      rw [bytes_char]
      decide
    rw [marks_cons, marks_cons]
    omega
  | case4 c rest hc hempty =>
    cases h
    obtain rfl := beq_iff_eq.mp hc
    rw [List.isEmpty_iff.mp hempty, hquote]
    exact Nat.le_refl 1
  | case5 => cases h
  | case6 => cases h
  | case7 => cases h
  | case8 c rest _ _ hbackslash p length _ ih =>
    obtain ⟨qs, hqs, rfl⟩ := Option.map_eq_some_iff.mp h
    obtain rfl := beq_iff_eq.mp hbackslash
    have hrest := ih hqs
    have hone : (Utf8.Piece.char '\\').bytes.data.toList.countP isMark = 1 := by
      rw [bytes_char]
      decide
    have hle := marks_piece_le p
    rw [marks_cons, marks_cons]
    omega
  | case9 c rest _ _ _ ih =>
    obtain ⟨qs, hqs, rfl⟩ := Option.map_eq_some_iff.mp h
    have hrest := ih hqs
    rw [marks_cons, marks_cons]
    omega

lemma marks_rawBody? {ps qs : List Utf8.Piece} (h : rawBody? ps = some qs) :
    marks qs + 1 ≤ marks ps := by
  fun_induction rawBody? ps generalizing qs with
  | case1 => cases h
  | case2 p rest hp hempty =>
    cases h
    rw [beq_iff_eq.mp hp, List.isEmpty_iff.mp hempty]
    decide
  | case3 => cases h
  | case4 p rest _ _ ih =>
    have hrest := ih h
    rw [marks_cons]
    omega
  | case5 p rest _ _ ih =>
    obtain ⟨qs, hqs, rfl⟩ := Option.map_eq_some_iff.mp h
    have hrest := ih hqs
    rw [marks_cons, marks_cons]
    omega

/-- A literal has the two quotes that its value lacks. -/
lemma marks_value? {bytes value : ByteArray} (h : value? bytes = some value) :
    ∃ qs, Utf8.join qs = value ∧ marks qs < marks (Utf8.pieces bytes) := by
  have hless {q : Char} (hq : marks [.char q] = 1) {rest qs : List Utf8.Piece}
      (hrest : marks qs + 1 ≤ marks rest) : marks qs < marks (.char q :: rest) := by
    rw [marks_cons]
    omega
  unfold value? at h
  split at h
  · next rest hpieces =>
    obtain ⟨qs, hqs, rfl⟩ := Option.map_eq_some_iff.mp h
    exact ⟨qs, rfl, hpieces ▸ hless (by decide) (marks_body? (by decide) hqs)⟩
  · next rest hpieces =>
    obtain ⟨qs, hqs, hvalue⟩ := Option.bind_eq_some_iff.mp h
    split_ifs at hvalue
    cases hvalue
    exact ⟨qs, rfl, hpieces ▸ hless (by decide) (marks_body? (by decide) hqs)⟩
  · next rest hpieces =>
    obtain ⟨qs, hqs, rfl⟩ := Option.map_eq_some_iff.mp h
    exact ⟨qs, rfl, hpieces ▸ hless (by decide) (marks_rawBody? hqs)⟩
  · cases h

theorem value?_ne_self (bytes : ByteArray) : value? bytes ≠ some bytes := by
  intro h
  obtain ⟨qs, hqs, hlt⟩ := marks_value? h
  have hpieces := pieceBytes_pieces bytes.data.toList
  rw [Utf8.toByteArray_toList] at hpieces
  rw [join_eq] at hqs
  rw [marks, marks, hpieces, ← hqs, List.toList_data_toByteArray] at hlt
  exact absurd hlt (lt_irrefl _)

end HiToolchain.StringLiteral
