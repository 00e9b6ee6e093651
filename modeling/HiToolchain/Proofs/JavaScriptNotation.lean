import HiToolchain.Proofs.NumberTexts

/-!
# The notation of a JavaScript console

A JavaScript console writes the shortest digits of a number at their places from `1e-6` up to
`1e21`, and with an exponent without leading zeros otherwise. The texts of whole numbers are the
same. Other numbers have an exponent already from `1e6` on and below `1e-4`, and it has two digits
or more, so their texts are the same only between these bounds and below `1e-9`.
-/

namespace HiToolchain

open Binary64 (Canonical Nearest Within)

namespace Decimal

/-- The text of a decimal in JavaScript: the cases are about the number `n` of digits before the
point, counted below zero for zeros after it, and the number `k` of all digits. -/
def javaScriptText (d : Decimal) : String :=
  let digits := d.digitChars
  let k : Int := digits.length
  let n := d.exponent + k
  if k ≤ n ∧ n ≤ 21 then String.ofList (digits ++ List.replicate (n - k).toNat '0')
  else if 0 < n ∧ n ≤ 21 then
    String.ofList (digits.take n.toNat ++ '.' :: digits.drop n.toNat)
  else if -6 < n ∧ n ≤ 0 then
    String.ofList ('0' :: '.' :: List.replicate (-n).toNat '0' ++ digits)
  else
    let exponent := (if 0 < n - 1 then '+' else '-') :: Nat.toDigits 10 (n - 1).natAbs
    if k = 1 then String.ofList (digits ++ 'e' :: exponent)
    else String.ofList (digits.take 1 ++ '.' :: digits.drop 1 ++ 'e' :: exponent)

/-- The style of these texts: an exponent outside of `1e-6` to `1e21`, without leading zeros. -/
def javaScriptStyle : NumberStyle := ⟨21, -6, 1⟩

lemma written_of_between (style : NumberStyle) {d : Decimal}
    (h : style.firstSmall ≤ d.leading ∧ d.leading < style.firstLarge) :
    d.written style = d.positional := by
  rw [written, if_neg (by simpa using h)]

lemma written_of_outside (style : NumberStyle) {d : Decimal}
    (h : ¬ (style.firstSmall ≤ d.leading ∧ d.leading < style.firstLarge)) :
    d.written style = d.scientific style.exponentWidth := by
  rw [written, if_pos (by simp; omega)]

lemma javaScriptText_eq (d : Decimal) : d.javaScriptText = d.written javaScriptStyle := by
  have hlength : 0 < d.digitChars.length := Nat.length_toDigits_pos
  have hleading : d.leading = d.exponent + d.digitChars.length - 1 := rfl
  unfold javaScriptText
  dsimp only
  by_cases hplain : -6 ≤ d.leading ∧ d.leading < 21
  · rw [written_of_between javaScriptStyle hplain]
    unfold positional
    dsimp only
    by_cases hwhole : 0 ≤ d.exponent
    · rw [if_pos (by omega), if_pos hwhole, Int.add_sub_cancel]
    · by_cases hpoint : (-d.exponent).toNat < d.digitChars.length
      · have htake : (d.exponent + d.digitChars.length).toNat =
            d.digitChars.length - (-d.exponent).toNat := by omega
        rw [if_neg (by omega), if_pos (by omega), if_neg hwhole, if_pos hpoint, htake]
      · have hzeros : (-(d.exponent + d.digitChars.length)).toNat =
            (-d.exponent).toNat - d.digitChars.length := by omega
        rw [if_neg (by omega), if_neg (by omega), if_pos (by omega), if_neg hwhole, if_neg hpoint,
          hzeros]
  · rw [written_of_outside javaScriptStyle hplain, if_neg (by omega), if_neg (by omega),
      if_neg (by omega)]
    have hsign : (if 0 < d.exponent + d.digitChars.length - 1 then '+' else '-') =
        if d.leading < 0 then '-' else '+' := by
      rw [← hleading]
      by_cases hnegative : d.leading < 0
      · rw [if_pos hnegative, if_neg (by omega)]
      · rw [if_neg hnegative, if_pos (by omega)]
    have hpad : 1 - (Nat.toDigits 10 d.leading.natAbs).length = 0 := by
      have hpos := Nat.length_toDigits_pos (b := 10) (n := d.leading.natAbs)
      omega
    have hone : javaScriptStyle.exponentWidth = 1 := rfl
    unfold scientific
    dsimp only
    rw [hsign, ← hleading, hone, hpad, List.replicate_zero]
    cases hchars : d.digitChars with
    | nil => exact absurd hchars d.digitChars_ne_nil
    | cons c cs =>
      cases cs with
      | nil => simp
      | cons c' cs => simp; omega

/-! ### Where the notations agree -/

/-- Two digits are enough for an exponent exactly if it has two of its own. -/
lemma scientific_two_eq_iff (d : Decimal) :
    d.scientific 2 = d.scientific 1 ↔ 10 ≤ d.leading.natAbs := by
  have hshort : (Nat.toDigits 10 d.leading.natAbs).length ≤ 1 ↔ d.leading.natAbs < 10 :=
    Nat.length_toDigits_le_iff (by decide) (by decide)
  have hpos := Nat.length_toDigits_pos (b := 10) (n := d.leading.natAbs)
  unfold scientific
  dsimp only
  rw [String.ofList_inj, List.append_left_inj, List.append_right_inj, List.cons.injEq,
    List.cons.injEq, List.replicate_inj]
  simp only [true_and]
  omega

lemma scientific_ne_positional (width : Nat) (d d' : Decimal) :
    d.scientific width ≠ d'.positional := by
  intro heq
  obtain ⟨digits, htext, -⟩ := scientific_eq width d
  have he : 'e' ∈ d'.positional.toList := by
    rw [← heq, htext]
    simp
  exact absurd (isDigit_or_point_of_mem_positional d' 'e' he) (by decide)

lemma written_alike {d : Decimal}
    (h : -4 ≤ d.leading ∧ d.leading < 6 ∨ d.leading < -9 ∨ 21 ≤ d.leading) :
    d.written generalStyle = d.written javaScriptStyle := by
  by_cases hplain : -4 ≤ d.leading ∧ d.leading < 6
  · have hplain' : -6 ≤ d.leading ∧ d.leading < 21 := by omega
    rw [written_of_between generalStyle hplain,
      written_of_between javaScriptStyle hplain']
  · have hplain' : ¬ (-6 ≤ d.leading ∧ d.leading < 21) := by omega
    rw [written_of_outside generalStyle hplain,
      written_of_outside javaScriptStyle hplain']
    exact (scientific_two_eq_iff d).mpr (by omega)

lemma leading_bounds {d : Decimal} (h : 0 < d.digits) :
    (10 : ℚ) ^ d.leading ≤ d.value ∧ d.value < 10 ^ (d.leading + 1) := by
  obtain ⟨l, hl, hlow, hhigh⟩ := toDigits_bounds h
  have hleading : d.leading = l + d.exponent := by
    unfold leading digitChars
    omega
  have hnext : d.leading + 1 = ((l + 1 : Nat) : Int) + d.exponent := by omega
  rw [hnext, hleading, ← pow_mul_zpow, ← pow_mul_zpow, value]
  have hunit : (0 : ℚ) < 10 ^ d.exponent := by positivity
  constructor
  · gcongr
  · gcongr

end Decimal

namespace Binary64

/-- In JavaScript a number is written with the fewest digits that round to it, the nearest ones. -/
def IsJavaScriptText (v : Binary64) (text : String) : Prop :=
  ∃ negative m q d, v = finite negative m q ∧ Decimal.IsShortest d m q ∧
    text = signedText negative d.javaScriptText

section

variable {negative : Bool} {m : Nat} {q : Int}

lemma whole_of_isIntegral (hcanonical : Canonical m q) (h : (finite negative m q).isIntegral) :
    ∃ n, scaleUp m q = n * scaleUp 1 (-q) := by
  by_cases hq : 0 ≤ q
  · exact ⟨scaleUp m q, by rw [scaleUp_of_nonpos 1 (by omega), Nat.mul_one]⟩
  · obtain ⟨k, r, hwhole, hvalue⟩ := ofRatio_whole negative
      ((Nat.div_le_self m (twoTo (-q).toNat)).trans_lt hcanonical.lt_twoTo)
    rw [isIntegral, trunc, if_neg hq, hwhole, same_finite_iff, hvalue] at h
    have hequal : (m * 2 ^ q : ℚ) = (m / twoTo (-q).toNat : Nat) := by
      cases negative
      · exact h
      · exact neg_inj.mp h
    refine ⟨m / twoTo (-q).toNat, ?_⟩
    have hcancel : (2 : ℚ) ^ q * 2 ^ (-q) = 1 := by
      rw [← zpow_add₀ two_ne_zero, add_neg_cancel, zpow_zero]
    have hcast : (m : ℚ) = (m / twoTo (-q).toNat : Nat) * scaleUp 1 (-q) := by
      rw [← hequal, cast_scaleUp 1 (by omega), Nat.cast_one, one_mul, mul_assoc, hcancel, mul_one]
    rw [scaleUp_of_nonpos m (by omega)]
    exact_mod_cast hcast

lemma lt_of_not_isIntegral (hcanonical : Canonical m q)
    (h : (finite negative m q).isIntegral = false) : (m * 2 ^ q : ℚ) < 10 ^ (20 : Int) := by
  have hq : q < 0 := by
    by_contra hq
    rw [isIntegral, trunc, if_pos (not_lt.mp hq), same_finite_iff.mpr rfl] at h
    cases h
  have hm : (m : ℚ) < 10 ^ (20 : Int) := by
    have hlt : m < 10 ^ 20 := hcanonical.lt_twoTo.trans (by decide)
    exact_mod_cast hlt
  have hpower : (2 : ℚ) ^ q ≤ 1 := zpow_le_one_of_nonpos₀ one_le_two hq.le
  calc (m * 2 ^ q : ℚ) ≤ m * 1 := by gcongr
    _ < 10 ^ (20 : Int) := by rwa [mul_one]

lemma isPositional_iff : (finite negative m q).isPositional ↔
    (finite negative m q).isIntegral ∧ (m * 2 ^ q : ℚ) < 10 ^ (21 : Int) := by
  rw [isPositional, Bool.and_eq_true, abs, positionalBound_eq, lt_finite_iff]
  norm_num [ofSigned]

/-- The first digit of the shortest decimal stands where that of the number does, or one place
before it where the digits carry. -/
lemma leading_of_value (h : Canonical m q) (hm : 0 < m) (k : Int) :
    ((10 : ℚ) ^ k ≤ m * 2 ^ q → k ≤ (Decimal.shortest m q).leading) ∧
      ((m * 2 ^ q : ℚ) < 10 ^ k → (Decimal.shortest m q).leading ≤ k) := by
  obtain ⟨-, hdigit, top, hlow, hhigh, hbelow, habove⟩ := Decimal.shortest_spec h hm
  obtain ⟨hfirst, hnext⟩ := Decimal.leading_bounds (d := Decimal.shortest m q) (by omega)
  have hten : (1 : ℚ) < 10 := by norm_num
  have htop := (zpow_lt_zpow_iff_right₀ hten).mp (hbelow.trans_lt hnext)
  have hcarry := (zpow_le_zpow_iff_right₀ hten).mp (hfirst.trans habove)
  refine ⟨fun hk => ?_, fun hk => ?_⟩
  · have hlt := (zpow_lt_zpow_iff_right₀ hten).mp (hk.trans_lt hhigh)
    omega
  · have hlt := (zpow_lt_zpow_iff_right₀ hten).mp (hlow.trans_lt hk)
    omega

/-- Since `1e21` is a number of the format, the digits of a smaller number do not carry to it. -/
lemma leading_lt (h : Canonical m q) (hm : 0 < m) (hlt : (m * 2 ^ q : ℚ) < 10 ^ (21 : Int)) :
    (Decimal.shortest m q).leading < 21 := by
  obtain ⟨hshortest, hdigit, -⟩ := Decimal.shortest_spec h hm
  have hle := (leading_of_value h hm 21).2 hlt
  by_contra hnot
  have heq : (Decimal.shortest m q).leading = 21 := by omega
  obtain ⟨hfirst, -⟩ := Decimal.leading_bounds (d := Decimal.shortest m q) (by omega)
  rw [heq] at hfirst
  have hwithin := (Decimal.round_eq_iff h false _).mp hshortest.rounds
  have hbound := Decimal.within_between hwithin hm (.inr ⟨hlt.le, hfirst⟩)
  have hpower : Canonical 7629394531250000 17 := ⟨by decide, by decide, by decide, .inl (by decide)⟩
  have hdist := (hbound.nearest h).le _ _ hpower
  have hexact : (10 : ℚ) ^ (21 : Int) - (7629394531250000 : Nat) * 2 ^ (17 : Int) = 0 := by norm_num
  rw [hexact, abs_zero, abs_nonpos_iff, sub_eq_zero] at hdist
  exact hlt.ne' hdist

end

section

variable {m : Nat} {q : Int}

lemma signedText_inj {negative : Bool} {a b : String} :
    signedText negative a = signedText negative b ↔ a = b :=
  String.append_right_inj _

/-- An exponent is not written as in JavaScript if a zero stands before its only digit, or if
JavaScript writes none. -/
lemma not_isJavaScriptText (negative : Bool) {d : Decimal}
    (h : d.leading.natAbs < 10 ∨ -6 ≤ d.leading ∧ d.leading < 21) :
    ¬ IsJavaScriptText (finite negative m q) (signedText negative (d.scientific 2)) := by
  rintro ⟨_, _, _, d', heq, -, htext⟩
  cases heq
  rw [signedText_inj, Decimal.javaScriptText_eq] at htext
  by_cases hplain : -6 ≤ d'.leading ∧ d'.leading < 21
  · rw [Decimal.written_of_between Decimal.javaScriptStyle hplain] at htext
    exact Decimal.scientific_ne_positional 2 d d' htext
  · rw [Decimal.written_of_outside Decimal.javaScriptStyle hplain] at htext
    -- both are read back as the decimal that they are the notation of
    have hread := congrArg (fun text : String => readUnsigned? text.toList) htext
    rw [Decimal.readUnsigned?_scientific, Decimal.readUnsigned?_scientific,
      Option.some.injEq] at hread
    subst hread
    have hwide := (Decimal.scientific_two_eq_iff d).mp htext
    omega

lemma isJavaScriptText_shortest (h : Canonical m q) (hm : 0 < m) {negative : Bool} {text : String}
    (htext : text = (Decimal.shortest m q).written Decimal.javaScriptStyle) :
    IsJavaScriptText (finite negative m q) (signedText negative text) := by
  obtain ⟨hshortest, -⟩ := Decimal.shortest_spec h hm
  exact ⟨negative, m, q, _, rfl, hshortest, by rw [htext, Decimal.javaScriptText_eq]⟩

end

end Binary64

/-- A number other than zero has the text that it has in JavaScript exactly if it is whole, or its
first digit stands between `1e-4` and `1e5`, or it stands below `1e-9`. -/
theorem text_is_javaScript_iff (negative : Bool) (m : Nat) (q : Int) (h : Canonical m q)
    (hm : 0 < m) :
    Binary64.IsJavaScriptText (.finite negative m q) (Binary64.finite negative m q).text ↔
      (Binary64.finite negative m q).isIntegral ∨
        -4 ≤ (Decimal.shortest m q).leading ∧ (Decimal.shortest m q).leading < 6 ∨
        (Decimal.shortest m q).leading < -9 := by
  rw [Binary64.text_eq_signedText]
  by_cases hwhole : (Binary64.finite negative m q).isIntegral
  · refine iff_of_true (Binary64.isJavaScriptText_shortest h hm ?_) (.inl hwhole)
    obtain ⟨n, hn⟩ := Binary64.whole_of_isIntegral h hwhole
    have hone : (10 : ℚ) ^ (0 : Int) ≤ m * 2 ^ q := by
      rw [Decimal.whole_eq hn, zpow_zero]
      exact_mod_cast Decimal.pos_of_whole hm hn
    have hfirst := (Binary64.leading_of_value h hm 0).1 hone
    by_cases hlt : (m * 2 ^ q : ℚ) < 10 ^ (21 : Int)
    · have hlast := Binary64.leading_lt h hm hlt
      have hplain : -6 ≤ (Decimal.shortest m q).leading ∧ (Decimal.shortest m q).leading < 21 := by
        omega
      rw [if_pos (Binary64.isPositional_iff.mpr ⟨hwhole, hlt⟩),
        Decimal.written_of_between Decimal.javaScriptStyle hplain]
    · have hlarge := (Binary64.leading_of_value h hm 21).1 (not_lt.mp hlt)
      rw [if_neg fun hpositional => hlt (Binary64.isPositional_iff.mp hpositional).2]
      exact Decimal.written_alike (.inr (.inr hlarge))
  · have hbound := (Binary64.leading_of_value h hm 20).2
      (Binary64.lt_of_not_isIntegral h (Bool.eq_false_iff.mpr hwhole))
    rw [if_neg fun hpositional => hwhole (Binary64.isPositional_iff.mp hpositional).1]
    by_cases halike : -4 ≤ (Decimal.shortest m q).leading ∧ (Decimal.shortest m q).leading < 6 ∨
        (Decimal.shortest m q).leading < -9
    · refine iff_of_true (Binary64.isJavaScriptText_shortest h hm ?_) (.inr halike)
      exact Decimal.written_alike (by omega)
    · refine iff_of_false ?_ (not_or.mpr ⟨hwhole, halike⟩)
      have houtside : ¬ (-4 ≤ (Decimal.shortest m q).leading ∧
          (Decimal.shortest m q).leading < 6) := fun hplain => halike (.inl hplain)
      rw [Decimal.written_of_outside generalStyle houtside]
      exact Binary64.not_isJavaScriptText negative (by omega)

theorem half_has_javaScript_text :
    Binary64.IsJavaScriptText (.finite false (twoTo 52) (-53)) "0.5" := by
  have hcanonical : Canonical (twoTo 52) (-53) := ⟨by decide, by decide, by decide, .inl le_rfl⟩
  have hshortest : (Decimal.shortest (twoTo 52) (-53)).leading = -1 := by decide +kernel
  have htext : (Binary64.finite false (twoTo 52) (-53)).text = "0.5" := by decide +kernel
  rw [← htext, text_is_javaScript_iff false (twoTo 52) (-53) hcanonical (twoTo_pos 52), hshortest]
  exact .inr (.inl (by decide))

/-- The first digit stands for a million, where an exponent starts but not in JavaScript. -/
theorem million_and_half_has_other_text :
    ∃ v, Binary64.ofBits 0x412e848100000000 = v ∧ v.text = "1.0000005e+06" ∧
      v.IsJavaScriptText "1000000.5" ∧ ¬ v.IsJavaScriptText v.text := by
  have hcanonical : Canonical 8589938886967296 (-33) :=
    ⟨by decide, by decide, by decide, .inl (by decide)⟩
  have hshortest : Decimal.shortest 8589938886967296 (-33) = ⟨10000005, -1⟩ := by decide +kernel
  refine ⟨.finite false 8589938886967296 (-33), by decide +kernel, by decide +kernel, ?_, ?_⟩
  · have hplain : signedText false "1000000.5" = "1000000.5" := by decide
    rw [← hplain]
    apply Binary64.isJavaScriptText_shortest hcanonical (by decide)
    rw [hshortest]
    decide +kernel
  · have htext : Binary64.text (.finite false 8589938886967296 (-33)) =
        signedText false (Decimal.scientific 2 ⟨10000005, -1⟩) := by decide +kernel
    rw [htext]
    exact Binary64.not_isJavaScriptText false (by decide +kernel)

end HiToolchain
