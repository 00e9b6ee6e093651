import HiToolchain.Decimal.Notation
import HiToolchain.Proofs.Rounding

/-!
# The shortest decimals of whole numbers

The shortest decimal of a whole number has no digits after the point: the grid of whole numbers
holds the number itself, so the search ends there at the latest. Below `2 ^ 54` it is the number
itself. From there on the neighbours of a number are four and more apart, and a multiple of ten
that stands nearer is shorter.
-/

namespace HiToolchain

namespace Decimal

/-! ### Comparing decimal and binary numbers -/

lemma cast_tenTo (n : Nat) : (tenTo n : ℚ) = 10 ^ n := by
  rw [tenTo]
  exact Nat.cast_pow 10 n

lemma tenTo_pos (n : Nat) : 0 < tenTo n := Nat.pow_pos (by decide)

lemma pow_toNat {b : ℚ} (hb : b ≠ 0) (k : Int) : b ^ k.toNat = b ^ k * b ^ (-k).toNat := by
  rw [← zpow_natCast, ← zpow_natCast, ← zpow_add₀ hb]
  congr 1
  omega

/-- What both sides of a comparison are multiplied by to become whole. -/
def commonScale (i e : Int) : ℚ := 10 ^ (-i).toNat * 2 ^ (-e).toNat

lemma commonScale_pos (i e : Int) : 0 < commonScale i e := by
  unfold commonScale
  positivity

lemma cast_crossDecimal (a : Nat) (i e : Int) :
    (crossDecimal a i e : ℚ) = a * 10 ^ i * commonScale i e := by
  unfold crossDecimal commonScale
  rw [Nat.cast_mul, Nat.cast_mul, cast_tenTo, cast_twoTo, pow_toNat (by norm_num) i]
  ring

lemma cast_crossBinary (b : Nat) (e i : Int) :
    (crossBinary b e i : ℚ) = b * 2 ^ e * commonScale i e := by
  unfold crossBinary commonScale
  rw [Nat.cast_mul, Nat.cast_mul, cast_tenTo, cast_twoTo, pow_toNat two_ne_zero e]
  ring

section

variable {a b : Nat} {i e : Int}

lemma crossDecimal_le_crossBinary_iff :
    crossDecimal a i e ≤ crossBinary b e i ↔ (a * 10 ^ i : ℚ) ≤ b * 2 ^ e := by
  rw [← Nat.cast_le (α := ℚ), cast_crossDecimal, cast_crossBinary,
    mul_le_mul_iff_of_pos_right (commonScale_pos i e)]

lemma crossBinary_le_crossDecimal_iff :
    crossBinary b e i ≤ crossDecimal a i e ↔ (b * 2 ^ e : ℚ) ≤ a * 10 ^ i := by
  rw [← Nat.cast_le (α := ℚ), cast_crossDecimal, cast_crossBinary,
    mul_le_mul_iff_of_pos_right (commonScale_pos i e)]

lemma crossDecimal_eq_crossBinary_iff :
    crossDecimal a i e = crossBinary b e i ↔ (a * 10 ^ i : ℚ) = b * 2 ^ e := by
  rw [← Nat.cast_inj (R := ℚ), cast_crossDecimal, cast_crossBinary,
    mul_left_inj' (commonScale_pos i e).ne']

end

/-! ### Decimals that round to a number -/

section

variable {m : Nat} {q : Int}

/-- A decimal that rounds to a number is at most half a unit away from it. -/
lemma roundsTo_near {a : Nat} {i : Int} (h : roundsTo m q a i) :
    ((4 * m - 2 : Nat) * 2 ^ (q - 2) : ℚ) ≤ a * 10 ^ i ∧
      (a * 10 ^ i : ℚ) ≤ (4 * m + 2 : Nat) * 2 ^ (q - 2) := by
  have hbounds : crossBinary (4 * m - if narrowBelow m q then 1 else 2) (q - 2) i ≤
        crossDecimal a i (q - 2) ∧
      crossDecimal a i (q - 2) ≤ crossBinary (4 * m + 2) (q - 2) i := by
    unfold roundsTo at h
    dsimp only at h
    split at h
    · simpa using h
    · have hstrict := by simpa using h
      exact ⟨hstrict.1.le, hstrict.2.le⟩
  rw [crossBinary_le_crossDecimal_iff, crossDecimal_le_crossBinary_iff] at hbounds
  refine ⟨le_trans ?_ hbounds.1, hbounds.2⟩
  have hle : 4 * m - 2 ≤ 4 * m - if narrowBelow m q then 1 else 2 := by split <;> omega
  gcongr

/-- A decimal that is equal to a number rounds to it. -/
lemma roundsTo_of_eq {a : Nat} {i : Int} (hm : 0 < m) (h : (a * 10 ^ i : ℚ) = m * 2 ^ q) :
    roundsTo m q a i := by
  have hquarter : (m * 2 ^ q : ℚ) = (4 * m : Nat) * 2 ^ (q - 2) := by
    rw [zpow_sub₀ two_ne_zero, Nat.cast_mul]
    norm_num
    ring
  have hpos : (0 : ℚ) < 2 ^ (q - 2) := by positivity
  have hlow : crossBinary (4 * m - if narrowBelow m q then 1 else 2) (q - 2) i <
      crossDecimal a i (q - 2) := by
    rw [← not_le, crossDecimal_le_crossBinary_iff, not_le, h, hquarter]
    have hlt : (4 * m - if narrowBelow m q then 1 else 2) < 4 * m := by split <;> omega
    gcongr
  have hhigh : crossDecimal a i (q - 2) < crossBinary (4 * m + 2) (q - 2) i := by
    rw [← not_le, crossBinary_le_crossDecimal_iff, not_le, h, hquarter]
    have hlt : 4 * m < 4 * m + 2 := by omega
    gcongr
  unfold roundsTo
  dsimp only
  split
  · simpa using ⟨hlow.le, hhigh.le⟩
  · simpa using ⟨hlow, hhigh⟩

lemma roundsTo_of_candidate? {a : Nat} {i : Int} (h : candidate? m q i = some a) :
    roundsTo m q a i := by
  unfold candidate? at h
  dsimp only at h
  split at h
  · split at h <;> cases h <;> assumption
  · cases h
    assumption
  · cases h
    assumption
  · cases h

end

/-! ### The search from the first digit down -/

/-- The number that a decimal without digits after the point denotes. -/
def wholeValue (d : Decimal) : Nat := d.digits * tenTo d.exponent.toNat

lemma cast_wholeValue {d : Decimal} (h : 0 ≤ d.exponent) :
    (wholeValue d : ℚ) = d.digits * 10 ^ d.exponent := by
  obtain ⟨k, hk⟩ := Int.eq_ofNat_of_zero_le h
  rw [wholeValue, Nat.cast_mul, cast_tenTo, hk, Int.toNat_natCast, zpow_natCast]

lemma trim_whole (fuel : Nat) {d : Decimal} (h : 0 ≤ d.exponent) :
    0 ≤ (trim fuel d).exponent ∧ wholeValue (trim fuel d) = wholeValue d := by
  induction fuel generalizing d with
  | zero => exact ⟨h, rfl⟩
  | succ fuel ih =>
    rw [trim]
    split
    · next hzero =>
      have hnext : 0 ≤ d.exponent + 1 := by omega
      obtain ⟨hexponent, hvalue⟩ := ih (d := ⟨d.digits / 10, d.exponent + 1⟩) hnext
      refine ⟨hexponent, hvalue.trans ?_⟩
      have htoNat : (d.exponent + 1).toNat = d.exponent.toNat + 1 := by omega
      have hdigits : d.digits / 10 * 10 = d.digits := by omega
      calc d.digits / 10 * tenTo (d.exponent + 1).toNat
          = d.digits / 10 * (tenTo d.exponent.toNat * 10) := by rw [htoNat]; rfl
        _ = d.digits / 10 * 10 * tenTo d.exponent.toNat := by ring
        _ = d.digits * tenTo d.exponent.toNat := by rw [hdigits]
    · exact ⟨h, rfl⟩

section

variable {m n : Nat} {q : Int}

lemma whole_eq (h : scaleUp m q = n * scaleUp 1 (-q)) : (m * 2 ^ q : ℚ) = n := by
  have hscale : (0 : ℚ) < scaleUp 1 (-q) := by exact_mod_cast scaleUp_pos Nat.one_pos (-q)
  have hratio := scaleUp_div_scaleUp m 1 (-q)
  rw [neg_neg, Nat.cast_one, div_one, zpow_neg, div_inv_eq_mul, div_eq_iff hscale.ne'] at hratio
  have hcast : (scaleUp m q : ℚ) = n * scaleUp 1 (-q) := by exact_mod_cast h
  exact mul_right_cancel₀ hscale.ne' (hratio.symm.trans hcast)

/-- On the grid of whole numbers a whole number is found itself. -/
lemma candidate?_zero (hm : 0 < m) (h : scaleUp m q = n * scaleUp 1 (-q)) :
    candidate? m q 0 = some n := by
  have hvalue : crossBinary m q 0 = n * crossDecimal 1 0 q := by
    have hten : tenTo 0 = 1 := rfl
    have hbinary : crossBinary m q 0 = scaleUp m q * tenTo 0 := rfl
    have hdecimal : crossDecimal 1 0 q = tenTo 0 * scaleUp 1 (-q) := by
      unfold crossDecimal scaleUp
      rw [Nat.one_mul, Nat.one_mul]
      rfl
    rw [hbinary, hdecimal, hten, Nat.one_mul, Nat.mul_one, h]
  have hunit : 0 < crossDecimal 1 0 q :=
    Nat.mul_pos (Nat.mul_pos Nat.one_pos (tenTo_pos _)) (twoTo_pos _)
  have hfloor : crossBinary m q 0 / crossDecimal 1 0 q = n := by
    rw [hvalue, Nat.mul_div_cancel _ hunit]
  have hrest : crossBinary m q 0 % crossDecimal 1 0 q = 0 := by
    rw [hvalue, Nat.mul_mod_left]
  have hrounds : roundsTo m q n 0 := by
    apply roundsTo_of_eq hm
    rw [whole_eq h, zpow_zero, mul_one]
  unfold candidate?
  dsimp only
  rw [hfloor, hrest, hrounds]
  cases roundsTo m q (n + 1) 0 with
  | true => simp [hunit]
  | false => rfl

lemma ne_zero_of_candidate?_eq_none (hm : 0 < m) (h : scaleUp m q = n * scaleUp 1 (-q)) {i : Int}
    (hi : candidate? m q i = none) : i ≠ 0 := by
  rintro rfl
  rw [candidate?_zero hm h] at hi
  cases hi

/-- The search for a whole number from a grid of whole numbers down does not pass the last. -/
lemma scan_exponent_nonneg (hm : 0 < m) (h : scaleUp m q = n * scaleUp 1 (-q)) (fuel : Nat)
    {i : Int} (hi : 0 ≤ i) : 0 ≤ (scan m q fuel i).exponent := by
  induction fuel generalizing i with
  | zero => exact hi
  | succ fuel ih =>
    rw [scan]
    cases hcandidate : candidate? m q i with
    | some a => exact hi
    | none =>
      have hne := ne_zero_of_candidate?_eq_none hm h hcandidate
      exact ih (by omega)

/-- With enough fuel the search ends at a decimal that rounds to the number. -/
lemma scan_candidate (hm : 0 < m) (h : scaleUp m q = n * scaleUp 1 (-q)) {fuel : Nat} {i : Int}
    (hi : 0 ≤ i) (hfuel : i < fuel) :
    candidate? m q (scan m q fuel i).exponent = some (scan m q fuel i).digits := by
  induction fuel generalizing i with
  | zero => omega
  | succ fuel ih =>
    rw [scan]
    cases hcandidate : candidate? m q i with
    | some a => exact hcandidate
    | none =>
      have hne := ne_zero_of_candidate?_eq_none hm h hcandidate
      exact ih (by omega) (by omega)

lemma magnitude_whole (hn : 0 < n) (h : scaleUp m q = n * scaleUp 1 (-q)) :
    magnitude (scaleUp m q) (scaleUp 1 (-q)) = (Nat.toDigits 10 n).length := by
  have hscale := scaleUp_pos Nat.one_pos (-q)
  have hle : scaleUp 1 (-q) ≤ n * scaleUp 1 (-q) := Nat.le_mul_of_pos_left _ hn
  rw [h, magnitude, if_pos hle, Nat.mul_div_cancel _ hscale]

lemma pos_of_whole (hm : 0 < m) (h : scaleUp m q = n * scaleUp 1 (-q)) : 0 < n := by
  have hpos := scaleUp_pos hm q
  rw [h] at hpos
  exact Nat.pos_of_mul_pos_right hpos

lemma eq_zero_of_whole (h : scaleUp 0 q = n * scaleUp 1 (-q)) : n = 0 := by
  have hzero : n * scaleUp 1 (-q) = 0 := h.symm.trans (Nat.zero_mul _)
  obtain hn | hscale := Nat.mul_eq_zero.mp hzero
  · exact hn
  · exact absurd hscale (scaleUp_pos Nat.one_pos _).ne'

/-- The shortest decimal is what the search finds, up to a zero that moved to the exponent. -/
lemma shortest_whole (hm : 0 < m) (h : scaleUp m q = n * scaleUp 1 (-q)) :
    ∃ top : Nat, top + 1 = (Nat.toDigits 10 n).length ∧
      0 ≤ (shortest m q).exponent ∧
      wholeValue (shortest m q) = wholeValue (scan m q 17 top) := by
  have hlength := Nat.length_toDigits_pos (b := 10) (n := n)
  refine ⟨(Nat.toDigits 10 n).length - 1, by omega, ?_⟩
  have htop : magnitude (scaleUp m q) (scaleUp 1 (-q)) - 1 =
      ((Nat.toDigits 10 n).length - 1 : Nat) := by
    rw [magnitude_whole (pos_of_whole hm h) h]
    omega
  rw [shortest, if_neg hm.ne']
  dsimp only
  rw [htop]
  exact trim_whole 1 (scan_exponent_nonneg hm h 17 (Int.natCast_nonneg _))

lemma shortest_exponent_nonneg (h : scaleUp m q = n * scaleUp 1 (-q)) :
    0 ≤ (shortest m q).exponent := by
  obtain rfl | hm := Nat.eq_zero_or_pos m
  · exact le_rfl
  · exact (shortest_whole hm h).choose_spec.2.1

lemma isExactly_iff (h : scaleUp m q = n * scaleUp 1 (-q)) :
    (shortest m q).isExactly m q ↔ wholeValue (shortest m q) = n := by
  rw [isExactly, beq_iff_eq, crossDecimal_eq_crossBinary_iff, whole_eq h,
    ← cast_wholeValue (shortest_exponent_nonneg h)]
  exact Nat.cast_inj

/-! ### Whole numbers with narrow gaps -/

lemma near_of_candidate {d : Decimal} (h : scaleUp m q = n * scaleUp 1 (-q))
    (hd : candidate? m q d.exponent = some d.digits) (hexponent : 0 ≤ d.exponent) (hm : 0 < m) :
    (n - 2 ^ (q - 1) : ℚ) ≤ wholeValue d ∧ (wholeValue d : ℚ) ≤ n + 2 ^ (q - 1) := by
  obtain ⟨hlow, hhigh⟩ := roundsTo_near (roundsTo_of_candidate? hd)
  have hhalf : (2 : ℚ) ^ (q - 1) = 2 * 2 ^ (q - 2) := by
    rw [mul_comm, ← zpow_add_one₀ two_ne_zero]
    congr 1
    omega
  have hwhole : (n : ℚ) = 4 * m * 2 ^ (q - 2) := by
    rw [← whole_eq h, zpow_sub₀ two_ne_zero]
    norm_num
    ring
  have hcast : ((4 * m - 2 : Nat) : ℚ) = 4 * m - 2 := by
    rw [Nat.cast_sub (by omega)]
    push_cast
    rfl
  rw [hcast] at hlow
  push_cast at hhigh
  rw [cast_wholeValue hexponent, hhalf, hwhole]
  constructor <;> linarith

/-- Where the gaps are at most two wide, a decimal that rounds to a whole number is that number:
a coarser grid has even numbers only. -/
lemma wholeValue_of_candidate {d : Decimal} (h : scaleUp m q = n * scaleUp 1 (-q)) (hq : q ≤ 1)
    (hd : candidate? m q d.exponent = some d.digits) (hexponent : 0 ≤ d.exponent) (hm : 0 < m) :
    wholeValue d = n := by
  obtain hzero | hpos := hexponent.eq_or_lt
  · rw [← hzero, candidate?_zero hm h] at hd
    rw [wholeValue, ← hzero, ← Option.some.inj hd]
    exact Nat.mul_one n
  · obtain ⟨hlow, hhigh⟩ := near_of_candidate h hd hexponent hm
    obtain hsmall | rfl : q ≤ 0 ∨ q = 1 := by omega
    · have hgap : (2 : ℚ) ^ (q - 1) ≤ 2 ^ (-1 : Int) := zpow_le_zpow_right₀ one_le_two (by omega)
      rw [zpow_neg_one] at hgap
      have hle : n < wholeValue d + 1 := by
        have hcast : (n : ℚ) < wholeValue d + 1 := by linarith
        exact_mod_cast hcast
      have hge : wholeValue d < n + 1 := by
        have hcast : (wholeValue d : ℚ) < n + 1 := by linarith
        exact_mod_cast hcast
      omega
    · rw [sub_self, zpow_zero] at hlow hhigh
      have hle : n ≤ wholeValue d + 1 := by
        have hcast : (n : ℚ) ≤ wholeValue d + 1 := by linarith
        exact_mod_cast hcast
      have hge : wholeValue d ≤ n + 1 := by exact_mod_cast hhigh
      have heven : n = m * 2 := by
        have hwhole : (n : ℚ) = m * 2 := by rw [← whole_eq h, zpow_one]
        exact_mod_cast hwhole
      have htens : wholeValue d % 2 = 0 := by
        obtain ⟨k, hk⟩ : ∃ k, d.exponent.toNat = k + 1 := ⟨d.exponent.toNat - 1, by omega⟩
        have hten : wholeValue d = d.digits * tenTo k * 5 * 2 := by
          rw [wholeValue, hk]
          change d.digits * (tenTo k * 10) = _
          ring
        rw [hten, Nat.mul_mod_left]
      omega

/-- The shortest decimal of a whole number below `2 ^ 54` is the number itself. -/
lemma isExactly_of_lt (h : scaleUp m q = n * scaleUp 1 (-q)) (hcanonical : Binary64.Canonical m q)
    (hn : n < twoTo 54) : (shortest m q).isExactly m q := by
  rw [isExactly_iff h]
  obtain rfl | hm := Nat.eq_zero_or_pos m
  · rw [eq_zero_of_whole h]
    rfl
  have hq : q ≤ 1 := by
    by_contra hlarge
    have hleading : twoTo 52 ≤ m := by
      obtain hleading | hleast := hcanonical.leading
      · exact hleading
      · rw [Binary64.leastExponent] at hleast
        omega
    obtain ⟨k, hk⟩ : ∃ k, q.toNat = 2 + k := ⟨q.toNat - 2, by omega⟩
    have hwhole : n = m * (twoTo 2 * twoTo k) := by
      rw [scaleUp_of_nonpos 1 (by omega), Nat.mul_one] at h
      rw [← h, scaleUp, hk, twoTo_add]
    have hfour : twoTo 54 = twoTo 52 * (twoTo 2 * 1) := by decide
    have hle : twoTo 54 ≤ n := by
      rw [hwhole, hfour]
      exact Nat.mul_le_mul hleading (Nat.mul_le_mul_left _ (twoTo_pos k))
    omega
  obtain ⟨top, htop, -, hvalue⟩ := shortest_whole hm h
  have hfew : (Nat.toDigits 10 n).length ≤ 17 := by
    rw [Nat.length_toDigits_le_iff (by decide) (by decide)]
    exact hn.trans (by decide)
  have hcandidate : candidate? m q (scan m q 17 top).exponent = some (scan m q 17 top).digits :=
    scan_candidate hm h (Int.natCast_nonneg top) (by omega)
  have hexponent := scan_exponent_nonneg hm h 17 (Int.natCast_nonneg top)
  exact hvalue.trans (wholeValue_of_candidate h hq hcandidate hexponent hm)

end

/-! ### Positional notation of whole numbers -/

lemma ofDigitChars_append_zeros (cs : List Char) (k : Nat) :
    Nat.ofDigitChars 10 (cs ++ List.replicate k '0') 0 = Nat.ofDigitChars 10 cs 0 * tenTo k := by
  rw [Nat.ofDigitChars_append, Nat.ofDigitChars_replicate_zero]
  exact Nat.mul_comm _ _

lemma toDigits_mul_tenTo {a : Nat} (ha : 0 < a) (k : Nat) :
    Nat.toDigits 10 (a * tenTo k) = Nat.toDigits 10 a ++ List.replicate k '0' := by
  induction k with
  | zero =>
    rw [List.replicate_zero, List.append_nil]
    exact congrArg _ (Nat.mul_one a)
  | succ k ih =>
    have hpos : 0 < a * tenTo k := Nat.mul_pos ha (tenTo_pos k)
    have hstep : a * tenTo (k + 1) = 10 * (a * tenTo k) + 0 := by
      change a * (tenTo k * 10) = _
      ring
    rw [hstep, ← Nat.toDigits_append_toDigits (by decide) hpos (by decide), ih, Nat.toDigits_zero,
      List.replicate_succ', List.append_assoc]

lemma positional_whole {d : Decimal} (h : 0 ≤ d.exponent) :
    d.positional =
      String.ofList (Nat.toDigits 10 d.digits ++ List.replicate d.exponent.toNat '0') := by
  rw [positional, if_pos h]
  rfl

/-- A whole decimal is written like the number `n` exactly if it is this number. -/
lemma positional_eq_toString_iff {d : Decimal} (h : 0 ≤ d.exponent) {n : Nat} (hn : 0 < n) :
    d.positional = toString n ↔ wholeValue d = n := by
  rw [positional_whole h, Nat.toString_eq_ofList_toDigits, String.ofList_inj]
  constructor
  · intro heq
    have hvalue := congrArg (fun cs => Nat.ofDigitChars 10 cs 0) heq
    rwa [ofDigitChars_append_zeros, Nat.ofDigitChars_ten_toDigits,
      Nat.ofDigitChars_ten_toDigits] at hvalue
  · rintro rfl
    have hdigits : 0 < d.digits := Nat.pos_of_mul_pos_right hn
    rw [wholeValue, toDigits_mul_tenTo hdigits]

end Decimal

end HiToolchain
