import HiToolchain.Proofs.ShortestDecimals
import Mathlib.Data.List.DropRight
import Mathlib.Data.List.TakeWhile
import Mathlib.Data.Nat.Factorization.Basic

/-!
# Reading decimal notation

What positional and scientific notation denote, as a reader that takes a text apart: a sign, digits
with a point between them, and an exponent. Both notations of a decimal are read back as the decimal
or, where zeros were written up to the point, as one with the same value.
-/

namespace HiToolchain

/-- The number that one or more digits denote. -/
def readNat? (cs : List Char) : Option Nat :=
  if cs ≠ [] ∧ cs.all Char.isDigit then some (Nat.ofDigitChars 10 cs 0) else none

/-- Digits, or digits on both sides of a point. -/
def readDigits? (cs : List Char) : Option Decimal :=
  let whole := cs.takeWhile (· ≠ '.')
  match cs.drop whole.length with
  | [] => (readNat? whole).map fun n => ⟨n, 0⟩
  | _ :: fraction => do
    let _ ← readNat? whole
    let _ ← readNat? fraction
    let n ← readNat? (whole ++ fraction)
    pure ⟨n, -fraction.length⟩

/-- A signed exponent, or nothing. -/
def readExponent? : List Char → Option Int
  | [] => some 0
  | 'e' :: '+' :: cs => (readNat? cs).map fun n : Nat => (n : Int)
  | 'e' :: '-' :: cs => (readNat? cs).map fun n : Nat => -(n : Int)
  | _ => none

/-- Digits with an exponent that moves the point. -/
def readUnsigned? (cs : List Char) : Option Decimal := do
  let digits := cs.takeWhile (· ≠ 'e')
  let d ← readDigits? digits
  let x ← readExponent? (cs.drop digits.length)
  pure ⟨d.digits, d.exponent + x⟩

/-- A number in decimal notation: whether it has a minus sign, and the decimal after it. -/
def readNumber? (text : String) : Option (Bool × Decimal) :=
  match text.toList with
  | '-' :: cs => (readUnsigned? cs).map (true, ·)
  | cs => (readUnsigned? cs).map (false, ·)

/-! ### Parts of a number -/

section

variable {cs whole fraction : List Char}

lemma notMem_of_digits {c : Char} (hdigits : ∀ c ∈ cs, c.isDigit) (hc : c.isDigit = false) :
    c ∉ cs := by
  intro hmem
  rw [hdigits c hmem] at hc
  cases hc

lemma isDigit_or_point (hdigits : ∀ c ∈ whole ++ fraction, c.isDigit) :
    ∀ c ∈ whole ++ '.' :: fraction, c.isDigit ∨ c = '.' := by
  intro c hmem
  obtain hwhole | hpoint | hfraction : c ∈ whole ∨ c = '.' ∨ c ∈ fraction := by simpa using hmem
  · exact .inl (hdigits c (List.mem_append_left _ hwhole))
  · exact .inr hpoint
  · exact .inl (hdigits c (List.mem_append_right _ hfraction))

lemma takeWhile_ne_append {c : Char} (hc : c ∉ cs) (rest : List Char) :
    (cs ++ c :: rest).takeWhile (· ≠ c) = cs := by
  have hkept : ∀ c' ∈ cs, decide (c' ≠ c) := by
    intro c' hmem
    exact decide_eq_true fun heq => hc (heq ▸ hmem)
  rw [List.takeWhile_append_of_pos hkept]
  simp

lemma takeWhile_ne_self {c : Char} (hc : c ∉ cs) : cs.takeWhile (· ≠ c) = cs := by
  rw [List.takeWhile_eq_self_iff]
  intro c' hmem
  exact decide_eq_true fun heq => hc (heq ▸ hmem)

lemma readNat?_eq (hne : cs ≠ []) (hdigits : ∀ c ∈ cs, c.isDigit) :
    readNat? cs = some (Nat.ofDigitChars 10 cs 0) :=
  if_pos ⟨hne, List.all_eq_true.mpr hdigits⟩

lemma readDigits?_whole (hne : cs ≠ []) (hdigits : ∀ c ∈ cs, c.isDigit) :
    readDigits? cs = some ⟨Nat.ofDigitChars 10 cs 0, 0⟩ := by
  rw [readDigits?, takeWhile_ne_self (notMem_of_digits hdigits (by decide)), List.drop_length]
  simp [readNat?_eq hne hdigits]

lemma readDigits?_point (hwhole : whole ≠ []) (hfraction : fraction ≠ [])
    (hdigits : ∀ c ∈ whole ++ fraction, c.isDigit) :
    readDigits? (whole ++ '.' :: fraction) =
      some ⟨Nat.ofDigitChars 10 (whole ++ fraction) 0, -fraction.length⟩ := by
  have hwhole' : ∀ c ∈ whole, c.isDigit := fun c hc => hdigits c (List.mem_append_left _ hc)
  have hfraction' : ∀ c ∈ fraction, c.isDigit := fun c hc => hdigits c (List.mem_append_right _ hc)
  rw [readDigits?, takeWhile_ne_append (notMem_of_digits hwhole' (by decide)), List.drop_left]
  simp only [readNat?_eq hwhole hwhole', readNat?_eq hfraction hfraction',
    readNat?_eq (List.append_ne_nil_of_left_ne_nil hwhole _) hdigits, Option.bind_eq_bind,
    Option.bind_some, Option.pure_def]

lemma readUnsigned?_plain (he : 'e' ∉ cs) : readUnsigned? cs = readDigits? cs := by
  rw [readUnsigned?, takeWhile_ne_self he, List.drop_length, readExponent?]
  cases readDigits? cs <;> simp

lemma readUnsigned?_exponent {d : Decimal} {sign : Char} {digits : List Char} {x : Int}
    (he : 'e' ∉ cs) (hd : readDigits? cs = some d)
    (hx : readExponent? ('e' :: sign :: digits) = some x) :
    readUnsigned? (cs ++ 'e' :: sign :: digits) = some ⟨d.digits, d.exponent + x⟩ := by
  rw [readUnsigned?, takeWhile_ne_append he, List.drop_left, hd, hx]
  rfl

end

/-! ### The notations of a decimal -/

namespace Decimal

lemma isDigit_of_mem_digitChars (d : Decimal) : ∀ c ∈ d.digitChars, c.isDigit :=
  fun _ hc => Nat.isDigit_of_mem_toDigits (by decide) (by decide) hc

lemma digitChars_ne_nil (d : Decimal) : d.digitChars ≠ [] :=
  List.ne_nil_of_length_pos Nat.length_toDigits_pos

lemma ofDigitChars_digitChars (d : Decimal) : Nat.ofDigitChars 10 d.digitChars 0 = d.digits :=
  Nat.ofDigitChars_ten_toDigits

lemma ofDigitChars_zeros_append (k : Nat) (cs : List Char) :
    Nat.ofDigitChars 10 (List.replicate k '0' ++ cs) 0 = Nat.ofDigitChars 10 cs 0 := by
  rw [Nat.ofDigitChars_append, Nat.ofDigitChars_replicate_zero, Nat.mul_zero]

lemma isDigit_of_mem_zeros (k : Nat) : ∀ c ∈ List.replicate k '0', c.isDigit := by
  intro c hc
  rw [List.eq_of_mem_replicate hc]
  decide

/-- A decimal with digits after the point has digits on both sides of it. -/
lemma positional_fraction {d : Decimal} (h : d.exponent < 0) :
    ∃ whole fraction, d.positional.toList = whole ++ '.' :: fraction ∧ whole ≠ [] ∧
      fraction.length = (-d.exponent).toNat ∧ (∀ c ∈ whole ++ fraction, c.isDigit) ∧
      Nat.ofDigitChars 10 (whole ++ fraction) 0 = d.digits := by
  have hdigits := d.isDigit_of_mem_digitChars
  unfold positional
  dsimp only
  rw [if_neg (by omega)]
  split
  · next hplaces =>
    refine ⟨_, _, String.toList_ofList, ?_, ?_, ?_, ?_⟩
    · apply List.ne_nil_of_length_pos
      rw [List.length_take]
      omega
    · rw [List.length_drop]
      omega
    · rwa [List.take_append_drop]
    · rw [List.take_append_drop, ofDigitChars_digitChars]
  · next hplaces =>
    refine ⟨['0'], List.replicate ((-d.exponent).toNat - d.digitChars.length) '0' ++ d.digitChars,
      String.toList_ofList, by simp, ?_, ?_, ?_⟩
    · rw [List.length_append, List.length_replicate]
      omega
    · refine List.forall_mem_append.mpr ⟨by simp, ?_⟩
      exact List.forall_mem_append.mpr ⟨isDigit_of_mem_zeros _, hdigits⟩
    · have hzero : ['0'] = List.replicate 1 '0' := rfl
      rw [hzero, ofDigitChars_zeros_append, ofDigitChars_zeros_append, ofDigitChars_digitChars]

/-- Positional notation is read back as the decimal whose digits end at the point or after it. -/
lemma readUnsigned?_positional (d : Decimal) :
    readUnsigned? d.positional.toList =
      some ⟨d.digits * tenTo d.exponent.toNat, min d.exponent 0⟩ := by
  obtain hwhole | hfraction := le_or_gt 0 d.exponent
  · have hall : ∀ c ∈ d.digitChars ++ List.replicate d.exponent.toNat '0', c.isDigit :=
      List.forall_mem_append.mpr ⟨d.isDigit_of_mem_digitChars, isDigit_of_mem_zeros _⟩
    have hne := List.append_ne_nil_of_left_ne_nil d.digitChars_ne_nil
      (List.replicate d.exponent.toNat '0')
    rw [positional_whole hwhole, String.toList_ofList, ← digitChars,
      readUnsigned?_plain (notMem_of_digits hall (by decide)), readDigits?_whole hne hall,
      ofDigitChars_append_zeros, ofDigitChars_digitChars, min_eq_right hwhole]
  · obtain ⟨whole, fraction, htext, hwhole, hlength, hall, hvalue⟩ := positional_fraction hfraction
    have he : 'e' ∉ whole ++ '.' :: fraction := by
      have hnot := notMem_of_digits hall (c := 'e') (by decide)
      simpa using hnot
    have hne : fraction ≠ [] := List.ne_nil_of_length_pos (by omega)
    have hexponent : -(fraction.length : Int) = d.exponent := by omega
    have hnone : d.exponent.toNat = 0 := by omega
    have hone : d.digits * tenTo 0 = d.digits := Nat.mul_one _
    rw [htext, readUnsigned?_plain he, readDigits?_point hwhole hne hall, hvalue, hexponent, hnone,
      hone, min_eq_left hfraction.le]

lemma isDigit_or_point_of_mem_positional (d : Decimal) :
    ∀ c ∈ d.positional.toList, c.isDigit ∨ c = '.' := by
  intro c hc
  obtain hwhole | hfraction := le_or_gt 0 d.exponent
  · rw [positional_whole hwhole, String.toList_ofList, ← digitChars] at hc
    exact .inl (List.forall_mem_append.mpr
      ⟨d.isDigit_of_mem_digitChars, isDigit_of_mem_zeros _⟩ c hc)
  · obtain ⟨whole, fraction, htext, -, -, hdigits, -⟩ := positional_fraction hfraction
    exact isDigit_or_point hdigits c (htext ▸ hc)

/-- Scientific notation has the point after the first of the digits, if it has one. -/
lemma scientific_eq (width : Nat) (d : Decimal) :
    ∃ digits, (d.scientific width).toList = digits ++ 'e' :: (if d.leading < 0 then '-' else '+') ::
        (List.replicate (width - (Nat.toDigits 10 d.leading.natAbs).length) '0' ++
          Nat.toDigits 10 d.leading.natAbs) ∧
      (∀ c ∈ digits, c.isDigit ∨ c = '.') ∧
      readDigits? digits = some ⟨d.digits, 1 - d.digitChars.length⟩ := by
  have hdigits := d.isDigit_of_mem_digitChars
  have hvalue := d.ofDigitChars_digitChars
  unfold scientific
  dsimp only
  cases hchars : d.digitChars with
  | nil => exact absurd hchars d.digitChars_ne_nil
  | cons c cs =>
    rw [hchars] at hdigits hvalue
    obtain rfl | hne := eq_or_ne cs []
    · refine ⟨[c], by simp, fun c' hmem => .inl (hdigits c' hmem), ?_⟩
      rw [readDigits?_whole (by simp) hdigits, hvalue]
      simp
    · refine ⟨[c] ++ '.' :: cs, by simp, ?_, ?_⟩
      · exact isDigit_or_point hdigits
      · rw [readDigits?_point (by simp) hne hdigits, List.singleton_append, hvalue]
        simp

lemma readExponent?_signed (x : Int) (k : Nat) :
    readExponent? ('e' :: (if x < 0 then '-' else '+') ::
      (List.replicate k '0' ++ Nat.toDigits 10 x.natAbs)) = some x := by
  have hne : List.replicate k '0' ++ Nat.toDigits 10 x.natAbs ≠ [] :=
    List.append_ne_nil_of_right_ne_nil _ (List.ne_nil_of_length_pos Nat.length_toDigits_pos)
  have hdigits : ∀ c ∈ List.replicate k '0' ++ Nat.toDigits 10 x.natAbs, c.isDigit :=
    List.forall_mem_append.mpr ⟨isDigit_of_mem_zeros k,
      fun _ hc => Nat.isDigit_of_mem_toDigits (by decide) (by decide) hc⟩
  have hvalue : Nat.ofDigitChars 10 (List.replicate k '0' ++ Nat.toDigits 10 x.natAbs) 0 =
      x.natAbs := by
    rw [ofDigitChars_zeros_append, Nat.ofDigitChars_ten_toDigits]
  by_cases hx : x < 0
  · simp only [if_pos hx, readExponent?, readNat?_eq hne hdigits, hvalue, Option.map_some,
      Option.some.injEq]
    omega
  · simp only [if_neg hx, readExponent?, readNat?_eq hne hdigits, hvalue, Option.map_some,
      Option.some.injEq]
    omega

/-- Scientific notation is read back as the decimal itself. -/
lemma readUnsigned?_scientific (width : Nat) (d : Decimal) :
    readUnsigned? (d.scientific width).toList = some d := by
  obtain ⟨digits, htext, hdigits, hread⟩ := scientific_eq width d
  have he : 'e' ∉ digits := by
    intro hmem
    exact absurd (hdigits 'e' hmem) (by decide)
  have hexponent : 1 - (d.digitChars.length : Int) + d.leading = d.exponent := by
    unfold leading
    omega
  rw [htext, readUnsigned?_exponent he hread (readExponent?_signed _ _), hexponent]

/-- The same number with more zeros at the end. -/
def shifted (k : Nat) (d : Decimal) : Decimal := ⟨d.digits * tenTo k, d.exponent - k⟩

lemma shifted_value (k : Nat) (d : Decimal) : (d.shifted k).value = d.value := by
  have hpower : ((tenTo k : Nat) : ℚ) * 10 ^ (d.exponent - k) = 10 ^ d.exponent := by
    rw [tenTo, Nat.pow_eq, pow_mul_zpow, add_sub_cancel]
  rw [value, value, shifted, Nat.cast_mul, mul_assoc, hpower]

lemma shifted_zero (d : Decimal) : d.shifted 0 = d := by
  have hone : d.digits * tenTo 0 = d.digits := Nat.mul_one _
  rw [shifted, hone, Nat.cast_zero, sub_zero]

lemma positional_reads_back (d : Decimal) :
    readUnsigned? d.positional.toList = some (d.shifted d.exponent.toNat) := by
  have hexponent : min d.exponent 0 = d.exponent - d.exponent.toNat := by omega
  rw [readUnsigned?_positional, hexponent, shifted]

lemma written_reads_back (style : NumberStyle) (d : Decimal) :
    ∃ k, readUnsigned? (d.written style).toList = some (d.shifted k) := by
  unfold written
  dsimp only
  split
  · exact ⟨0, by rw [readUnsigned?_scientific, shifted_zero]⟩
  · exact ⟨_, d.positional_reads_back⟩

/-! ### Significant digits -/

/-- The number of digits, without zeros at the end. -/
def significantDigits (d : Decimal) : Nat := (d.digitChars.rdropWhile (· = '0')).length

lemma rdropWhile_zeros (cs : List Char) (k : Nat) :
    (cs ++ List.replicate k '0').rdropWhile (· = '0') = cs.rdropWhile (· = '0') := by
  induction k with
  | zero => rw [List.replicate_zero, List.append_nil]
  | succ k ih =>
    rw [List.replicate_succ', ← List.append_assoc, List.rdropWhile_concat_pos _ _ _ (by decide), ih]

lemma digitChar_ne_zero : ∀ r < 10, r ≠ 0 → Nat.digitChar r ≠ '0' := by decide

/-- The digits of a number end with its last digit. -/
lemma exists_toDigits_eq_concat (n : Nat) :
    ∃ cs, Nat.toDigits 10 n = cs ++ [Nat.digitChar (n % 10)] := by
  have hmod : n % 10 < 10 := Nat.mod_lt _ (by decide)
  obtain hlt | hle := lt_or_ge n 10
  · exact ⟨[], by rw [Nat.toDigits_of_lt_base hlt, Nat.mod_eq_of_lt hlt, List.nil_append]⟩
  · refine ⟨Nat.toDigits 10 (n / 10), ?_⟩
    have hsplit := Nat.toDigits_append_toDigits (b := 10) (n := n / 10) (d := n % 10) (by decide)
      (Nat.div_pos hle (by decide)) hmod
    rw [Nat.div_add_mod, Nat.toDigits_of_lt_base hmod] at hsplit
    exact hsplit.symm

lemma significantDigits_shifted {d : Decimal} (h : d.digits % 10 ≠ 0) (k : Nat) :
    (d.shifted k).significantDigits = d.digitChars.length := by
  have hpos : 0 < d.digits := by omega
  have hdigits : (d.shifted k).digitChars = d.digitChars ++ List.replicate k '0' :=
    toDigits_mul_tenTo hpos k
  have hlast : d.digitChars.rdropWhile (· = '0') = d.digitChars := by
    obtain ⟨cs, hcs⟩ := exists_toDigits_eq_concat d.digits
    have hne := digitChar_ne_zero _ (Nat.mod_lt _ (by decide)) h
    rw [digitChars, hcs, List.rdropWhile_concat_neg _ _ _ (by simpa using hne)]
  rw [significantDigits, hdigits, rdropWhile_zeros, hlast]

lemma exists_shifted {d : Decimal} (h : d.digits ≠ 0) :
    ∃ (k : Nat) (d' : Decimal), d'.digits % 10 ≠ 0 ∧ d = d'.shifted k := by
  obtain ⟨k, n, hn, heq⟩ := Nat.exists_eq_pow_mul_and_not_dvd h 10 (by decide)
  refine ⟨k, ⟨n, d.exponent + k⟩, fun hzero => hn (Nat.dvd_of_mod_eq_zero hzero), ?_⟩
  have hdigits : d.digits = n * tenTo k := by
    rw [heq, Nat.mul_comm]
    rfl
  rw [shifted, ← hdigits, add_sub_cancel_right]

end Decimal

end HiToolchain
