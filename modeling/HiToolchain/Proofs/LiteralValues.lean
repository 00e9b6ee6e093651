import HiToolchain.Proofs.LiteralRange
import HiToolchain.Proofs.Nearest

/-!
# The values of literals

A literal denotes a natural number of any length, and its value is the number of the format that
is nearest to it. Zeros in front have no effect on either.
-/

namespace HiToolchain

namespace Binary64

lemma exists_canonical_whole {n : Nat} (hn : n ≤ twoTo 53) :
    ∃ m q, Canonical m q ∧ (m * 2 ^ q : ℚ) = n := by
  obtain hlt | rfl := Nat.lt_or_eq_of_le hn
  · obtain ⟨m, q, h, hvalue⟩ := ofRatio_whole false hlt
    have hcanonical := ofRatio_isCanonical false n Nat.one_pos
    rw [h] at hcanonical
    exact ⟨m, q, hcanonical, hvalue⟩
  · refine ⟨twoTo 52, 1, ⟨by decide, by decide, by decide, .inl le_rfl⟩, ?_⟩
    rw [zpow_one, cast_twoTo, cast_twoTo, ← pow_succ]

section

variable {n m : Nat} {q : Int}

lemma Nearest.eq_of_le (h : Nearest n m q) (hn : n ≤ twoTo 53) : (m * 2 ^ q : ℚ) = n := by
  obtain ⟨m', q', hcanonical, hvalue⟩ := exists_canonical_whole hn
  have hle := h.le m' q' hcanonical
  rw [hvalue, sub_self, abs_zero, abs_nonpos_iff] at hle
  linarith

/-- The number nearest to a whole number is whole. -/
lemma Nearest.whole (h : Nearest n m q) : ∃ k : Nat, (m * 2 ^ q : ℚ) = k := by
  by_cases hn : n ≤ twoTo 53
  · exact ⟨n, h.eq_of_le hn⟩
  · -- from here on the numbers have no fraction
    obtain ⟨m', q', hcanonical, hvalue⟩ := exists_canonical_whole le_rfl
    have hn' : (twoTo 53 : ℚ) < n := by exact_mod_cast not_le.mp hn
    have hge : (twoTo 53 : ℚ) ≤ m * 2 ^ q := by
      by_contra hlt
      rw [not_le, ← hvalue] at hlt
      have hmiddle := (abs_sub_le_left_iff hlt).mp (h.le m' q' hcanonical)
      linarith
    have hq : 0 ≤ q := by
      by_contra hneg
      have hm : (m : ℚ) < twoTo 53 := by exact_mod_cast h.canonical.lt_twoTo
      have hpower : (2 : ℚ) ^ q ≤ 1 := zpow_le_one_of_nonpos₀ one_le_two (by omega)
      have hscaled : (m * 2 ^ q : ℚ) ≤ m := mul_le_of_le_one_right (by positivity) hpower
      linarith
    exact ⟨scaleUp m q, (cast_scaleUp m hq).symm⟩

end

end Binary64

/-- Zeros before the digits change nothing. -/
lemma digitsValue_zeros (zeros : Nat) (cs : List Char) :
    digitsValue (List.replicate zeros '0' ++ cs) = digitsValue cs := by
  simp [digitsValue, Nat.ofDigitChars_append]

namespace Literal

lemma isDigits_iff (digits : String) :
    isDigits digits ↔ digits ≠ "" ∧ ∀ c ∈ digits.toList, '0' ≤ c ∧ c ≤ '9' := by
  simp [isDigits, isDigit]

lemma isDigits_zeros {digits : String} (h : isDigits digits) (zeros : Nat) :
    isDigits (String.ofList (List.replicate zeros '0' ++ digits.toList)) := by
  rw [isDigits_iff] at h ⊢
  obtain ⟨hne, hall⟩ := h
  refine ⟨by simp [hne], fun c hc => ?_⟩
  rw [String.toList_ofList, List.mem_append] at hc
  obtain hzero | hdigit := hc
  · rw [List.eq_of_mem_replicate hzero]
    decide
  · exact hall c hdigit

lemma value_of_ofNat {digits : String} (h : isDigits digits) (span : Span) {m : Nat} {q : Int}
    (hround : Binary64.ofNat (digitsValue digits.toList) = .finite false m q) :
    value digits span = .ok (.finite false m q) := by
  rw [value, value?, if_pos h, hround]

lemma value_of_value?_eq_none {digits : String} (span : Span) (h : value? digits = none) :
    value digits span = .error ⟨.malformedNumber digits, span⟩ := by
  rw [value, h]

end Literal

/-- A literal has a value exactly if it is a run of decimal digits that denotes a natural number
below half a unit above the greatest finite one. The value is then the number nearest to it, which
is whole, is the natural number itself up to `2 ^ 53`, and is the same with zeros before the
digits. Any other literal is a fault at its place. -/
theorem literal_value_is_nearest (digits : String) (span : Span) :
    let n := Nat.ofDigitChars 10 digits.toList 0
    let inRange := digits ≠ "" ∧ (∀ c ∈ digits.toList, '0' ≤ c ∧ c ≤ '9') ∧
      n < twoTo 1024 - twoTo 970
    (inRange → ∃ m q, Literal.value digits span = .ok (.finite false m q) ∧
      Binary64.Nearest n m q ∧ (∀ m' q', Binary64.Nearest n m' q' → m' = m ∧ q' = q) ∧
      (∃ k : Nat, (m * 2 ^ q : ℚ) = k) ∧ (n ≤ twoTo 53 → (m * 2 ^ q : ℚ) = n) ∧
      ∀ zeros, Literal.value (String.ofList (List.replicate zeros '0' ++ digits.toList)) span =
        .ok (.finite false m q)) ∧
    (¬ inRange → Literal.value digits span = .error ⟨.malformedNumber digits, span⟩) := by
  intro n inRange
  refine ⟨fun ⟨hne, hall, hn⟩ => ?_, fun hout => ?_⟩
  · have hdigits := (Literal.isDigits_iff digits).mpr ⟨hne, hall⟩
    have hn' : ((n : Nat) / (1 : Nat) : ℚ) < (twoTo 1024 - twoTo 970 : Nat) := by
      rw [Nat.cast_one, div_one]
      exact_mod_cast hn
    obtain ⟨m, q, hround, hnearest⟩ := Binary64.ofRatio_nearest false Nat.one_pos hn'
    rw [Nat.cast_one, div_one] at hnearest
    refine ⟨m, q, Literal.value_of_ofNat hdigits span hround, hnearest,
      fun m' q' h' => h'.unique hnearest, hnearest.whole, hnearest.eq_of_le, fun zeros => ?_⟩
    apply Literal.value_of_ofNat (Literal.isDigits_zeros hdigits zeros)
    rw [String.toList_ofList, digitsValue_zeros]
    exact hround
  · apply Literal.value_of_value?_eq_none
    by_cases hdigits : Literal.isDigits digits
    · rw [Literal.value?_eq_none_iff hdigits]
      by_contra hlt
      obtain ⟨hne, hall⟩ := (Literal.isDigits_iff digits).mp hdigits
      exact hout ⟨hne, hall, not_le.mp hlt⟩
    · rw [Literal.value?, if_neg hdigits]

end HiToolchain
