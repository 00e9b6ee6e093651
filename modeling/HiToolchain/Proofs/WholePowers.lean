import HiToolchain.Proofs.Rounding

/-!
# Powers of whole numbers

A multiple of a power of two rounds to a multiple of that power: either the last place to which it
is rounded is a multiple itself, or the number has no more places than fit and nothing is rounded
away. So the products by which a power is computed stay whole when they are scaled back, and a
whole number raised to a whole or infinite exponent is whole or infinite.
-/

namespace HiToolchain

namespace Binary64

/-! ### Rounding multiples -/

section

variable {n d : Nat}

/-- A quotient rounds to a whole number of last places, unless it is out of range. -/
lemma ofRatio_places (hn : 0 < n) :
    ofRatio false n d = infinity false ∨
      ∃ m q, ofRatio false n d = finite false m q ∧
        (m * 2 ^ q : ℚ) = places n d * 2 ^ quantum n d := by
  rw [ofRatio_eq false hn]
  split
  · next hcarry =>
    split
    · exact .inl rfl
    · refine .inr ⟨_, _, rfl, ?_⟩
      rw [hcarry, cast_twoTo, cast_twoTo, zpow_add_one₀ two_ne_zero]
      ring
  · split
    · exact .inl rfl
    · exact .inr ⟨_, _, rfl, rfl⟩

lemma places_multiple (hd : 0 < d) {j : Nat} {k : Int} (h : (n / d : ℚ) = j * 2 ^ k) :
    ∃ i : Nat, (places n d * 2 ^ quantum n d : ℚ) = i * 2 ^ k := by
  obtain hle | hlt := le_or_gt k (quantum n d)
  · refine ⟨scaleUp (places n d) (quantum n d - k), ?_⟩
    rw [cast_scaleUp _ (by omega), mul_assoc, ← zpow_add₀ two_ne_zero, sub_add_cancel]
  · -- the quotient is a whole number of last places
    have hexact : ((scaleUp j (k - quantum n d) : Nat) * 2 ^ quantum n d : ℚ) = n / d := by
      rw [cast_scaleUp _ (by omega), mul_assoc, ← zpow_add₀ two_ne_zero, sub_add_cancel, h]
    have hplaces : places n d = scaleUp j (k - quantum n d) :=
      Nat.le_antisymm (places_le hd hexact.ge) (le_places hd hexact.le)
    exact ⟨j, by rw [hplaces, hexact, h]⟩

lemma ofRatio_multiple (hd : 0 < d) {j : Nat} {k : Int} (h : (n / d : ℚ) = j * 2 ^ k) :
    ofRatio false n d = infinity false ∨
      ∃ m q, ofRatio false n d = finite false m q ∧ ∃ i : Nat, (m * 2 ^ q : ℚ) = i * 2 ^ k := by
  obtain rfl | hn := Nat.eq_zero_or_pos n
  · exact .inr ⟨0, leastExponent, rfl, 0, by simp⟩
  obtain hinfinite | ⟨m, q, hround, hvalue⟩ := ofRatio_places (d := d) hn
  · exact .inl hinfinite
  · obtain ⟨i, hi⟩ := places_multiple hd h
    exact .inr ⟨m, q, hround, i, hvalue.trans hi⟩

/-- What is at most one rounds to a number that is at most one. -/
lemma ofRatio_le_one (hd : 0 < d) (h : (n / d : ℚ) ≤ 1) :
    ∃ m q, ofRatio false n d = finite false m q ∧ (m * 2 ^ q : ℚ) ≤ 1 := by
  obtain rfl | hn := Nat.eq_zero_or_pos n
  · exact ⟨0, leastExponent, rfl, by simp⟩
  have hlog : floorLog2 n d ≤ 0 := by
    have hlow := (floorLog2_spec hn hd).1.trans h
    rw [← zpow_zero (2 : ℚ)] at hlow
    exact (zpow_le_zpow_iff_right₀ one_lt_two).mp hlow
  have hquantum : quantum n d = max (floorLog2 n d - 52) (-1074) := rfl
  obtain ⟨k, hk⟩ : ∃ k : Nat, quantum n d = -k := ⟨(-quantum n d).toNat, by omega⟩
  have hone : ((twoTo k : Nat) * 2 ^ quantum n d : ℚ) = 1 := by
    rw [hk, cast_twoTo, zpow_neg, zpow_natCast]
    exact mul_inv_cancel₀ (by positivity)
  have hplaces : places n d ≤ twoTo k := places_le hd (h.trans hone.ge)
  obtain ⟨s, m, q, hfinite⟩ := (ofRatio_finite_iff_quantum false hn).mpr
    (.inl (show quantum n d < greatestExponent by rw [greatestExponent]; omega))
  obtain hinfinite | ⟨m, q, hround, hvalue⟩ := ofRatio_places (d := d) hn
  · rw [hinfinite] at hfinite
    cases hfinite
  · refine ⟨m, q, hround, hvalue.le.trans (le_trans ?_ hone.le)⟩
    gcongr

end

lemma scaled_quotient (n : Nat) (e : Int) :
    (scaleUp n e / scaleUp 1 (-e) : ℚ) = n * 2 ^ e := by
  have hquotient := scaleUp_div_scaleUp n 1 (-e)
  rwa [neg_neg, Nat.cast_one, div_one, zpow_neg, div_inv_eq_mul] at hquotient

/-! ### Products under way -/

/-- A number from zero to one that is whole once it is scaled by `2 ^ e`. -/
def WholeAt (e : Int) (x : Binary64) : Prop :=
  ∃ m q, x = finite false m q ∧ (m * 2 ^ q : ℚ) ≤ 1 ∧ ∃ n : Nat, (m * 2 ^ (q + e) : ℚ) = n

lemma ofScaled_wholeAt {m n : Nat} {q e : Int} (hle : (m * 2 ^ q : ℚ) ≤ 1)
    (hwhole : (m * 2 ^ (q + e) : ℚ) = n) : WholeAt e (ofScaled false m q) := by
  have hd : 0 < scaleUp 1 (-q) := scaleUp_pos Nat.one_pos _
  have hmultiple : (scaleUp m q / scaleUp 1 (-q) : ℚ) = n * 2 ^ (-e) := by
    rw [scaled_quotient, ← hwhole, mul_assoc, ← zpow_add₀ two_ne_zero, add_neg_cancel_right]
  have hone : (scaleUp m q / scaleUp 1 (-q) : ℚ) ≤ 1 := by rwa [scaled_quotient]
  obtain ⟨m', q', hround, hle'⟩ := ofRatio_le_one hd hone
  refine ⟨m', q', hround, hle', ?_⟩
  obtain hinfinite | ⟨m'', q'', hround', i, hi⟩ := ofRatio_multiple hd hmultiple
  · cases hround.symm.trans hinfinite
  · cases hround.symm.trans hround'
    refine ⟨i, ?_⟩
    rw [zpow_add₀ two_ne_zero, ← mul_assoc, hi, mul_assoc, ← zpow_add₀ two_ne_zero, neg_add_cancel,
      zpow_zero, mul_one]

section

variable {x y : Binary64} {a b e : Int}

lemma WholeAt.mul (hx : WholeAt a x) (hy : WholeAt b y) : WholeAt (a + b) (x.mul y) := by
  obtain ⟨m, q, rfl, hm, i, hi⟩ := hx
  obtain ⟨n, r, rfl, hn, j, hj⟩ := hy
  have hproduct : ∀ c d : Int, ((m * n : Nat) * 2 ^ (c + d) : ℚ) = m * 2 ^ c * (n * 2 ^ d) := by
    intro c d
    rw [Nat.cast_mul, zpow_add₀ two_ne_zero]
    ring
  refine ofScaled_wholeAt (n := i * j) ?_ ?_
  · rw [hproduct]
    exact mul_le_one₀ hm (by positivity) hn
  · rw [show q + r + (a + b) = (q + a) + (r + b) by omega, hproduct, hi, hj, Nat.cast_mul]

lemma half_value : ((twoTo 52 : Nat) * 2 ^ (-53 : Int) : ℚ) = 1 / 2 := by
  rw [cast_twoTo]
  norm_num

/-- Below a half there is room for twice the number. -/
lemma WholeAt.add_self (hx : WholeAt e x) (hhalf : x.lt half) : WholeAt (e - 1) (x.add x) := by
  obtain ⟨m, q, rfl, -, n, hn⟩ := hx
  have hbelow : (m * 2 ^ q : ℚ) < 1 / 2 := by
    have hlt := lt_finite_iff.mp hhalf
    simpa only [ofSigned, half_value, Bool.false_eq_true, if_false] using hlt
  have hadd : (finite false m q).add (finite false m q) = ofScaled false (2 * m) q := by
    have hunits : units false m q q = m := by
      rw [units, if_neg (by decide), sub_self, scaleUp_of_nonpos m le_rfl]
    simp only [add, min_self, hunits]
    by_cases hm : m = 0
    · subst hm
      simp [ofScaled, ofRatio, scaleUp]
    · have hnatAbs : ((m : Int) + m).natAbs = 2 * m := by omega
      have hsign : decide ((m : Int) + m < 0) = false := decide_eq_false (by omega)
      rw [if_neg (by omega), hnatAbs, hsign]
  rw [hadd]
  refine ofScaled_wholeAt (n := n) ?_ ?_
  · push_cast
    linarith
  · rw [← hn, show q + (e - 1) = q + e - 1 by omega, zpow_sub_one₀ two_ne_zero]
    push_cast
    ring

end

lemma one_wholeAt : WholeAt 0 one := by
  refine ⟨twoTo 52, -52, rfl, ?_, 1, ?_⟩ <;> rw [cast_twoTo] <;> norm_num

/-- The product stays whole, since the exponents of whole bases are positive. -/
lemma powerLoop_wholeAt (acc : Product) (base : Binary64) (exponent : Int) (n : Nat)
    (hacc : WholeAt acc.exponent acc.significand) (hbase : WholeAt exponent base)
    (hexponent : 0 < exponent) :
    WholeAt (powerLoop acc base exponent n).exponent
      (powerLoop acc base exponent n).significand := by
  fun_induction powerLoop acc base exponent n with
  | case1 => exact hacc
  | case2 acc base exponent n hn hrange =>
    -- what is left out is at least a multiplication by one
    obtain ⟨m, q, hfinite, hle, i, hi⟩ := hacc
    refine ⟨m, q, hfinite, hle, scaleUp i exponent, ?_⟩
    rw [cast_scaleUp i hexponent.le, ← hi, mul_assoc, ← zpow_add₀ two_ne_zero]
    congr 2
    change q + (acc.exponent + exponent) = _
    omega
  | case3 acc base exponent n hn hrange acc' square square' twice hnormal ih =>
    have hacc' : WholeAt acc'.exponent acc'.significand := by
      subst acc'
      split
      · exact hacc.mul hbase
      · exact hacc
    have hsquare : WholeAt (exponent + exponent) square := hbase.mul hbase
    split at hnormal
    · next hhalf =>
      cases hnormal
      refine ih hacc' ?_ (by omega)
      rw [two_mul]
      exact hsquare.add_self hhalf
    · cases hnormal
      refine ih hacc' ?_ (by omega)
      rwa [two_mul]

/-! ### Powers -/

/-- A finite number of the format that is whole and not negative. -/
def IsNatural (x : Binary64) : Prop :=
  ∃ m q, x = finite false m q ∧ Canonical m q ∧ ∃ n : Nat, (m * 2 ^ q : ℚ) = n

/-- Whole, or infinite and positive. -/
def IsNaturalOrInfinite (x : Binary64) : Prop := x.IsNatural ∨ x = infinity false

lemma one_isNatural : one.IsNatural := by
  refine ⟨twoTo 52, -52, rfl, one_isCanonical, 1, ?_⟩
  rw [cast_twoTo]
  norm_num

lemma zero_isNatural : (zero false).IsNatural :=
  ⟨0, leastExponent, rfl, isCanonical_zero false, 0, by simp⟩

lemma ofRatio_isNaturalOrInfinite {n d k : Nat} (hd : 0 < d) (h : (n / d : ℚ) = k) :
    (ofRatio false n d).IsNaturalOrInfinite := by
  have hcanonical := ofRatio_isCanonical false n hd
  obtain hinfinite | ⟨m, q, hround, i, hi⟩ :=
    ofRatio_multiple (k := 0) hd (by rwa [zpow_zero, mul_one])
  · exact .inr hinfinite
  · rw [hround] at hcanonical ⊢
    exact .inl ⟨m, q, rfl, hcanonical, i, by rwa [zpow_zero, mul_one] at hi⟩

lemma powHuge_isNaturalOrInfinite (x : Binary64) (negative : Bool) :
    (powHuge x negative).IsNaturalOrInfinite := by
  unfold powHuge
  split
  · exact .inl one_isNatural
  · split
    · exact .inl zero_isNatural
    · exact .inr rfl

lemma WholeAt.scale {x : Binary64} {e : Int} (hx : WholeAt e x) :
    (x.scale e).IsNaturalOrInfinite := by
  obtain ⟨m, q, rfl, -, n, hn⟩ := hx
  refine ofRatio_isNaturalOrInfinite (scaleUp_pos Nat.one_pos _) (k := n) ?_
  rw [scaled_quotient, hn]

lemma split_wholeAt {m n : Nat} {q : Int} (hm : 0 < m) (hn : (m * 2 ^ q : ℚ) = n) :
    WholeAt (split false m q).2 (split false m q).1 ∧ 0 < (split false m q).2 := by
  obtain ⟨-, hhigh⟩ := log2_bounds hm
  have hbits : (m * 2 ^ (-((m.log2 : Int) + 1)) : ℚ) ≤ 1 := by
    rw [zpow_neg, ← div_eq_mul_inv, div_le_one (by positivity)]
    exact hhigh.le
  constructor
  · refine ofScaled_wholeAt hbits (n := n) ?_
    change (m * 2 ^ (-((m.log2 : Int) + 1) + (q + ((m.log2 : Int) + 1))) : ℚ) = n
    rw [neg_add_cancel_comm_assoc, hn]
  · -- a whole number that is not zero is at least one
    have hpos : 0 < n := by
      have hvalue : (0 : ℚ) < m * 2 ^ q := by positivity
      rw [hn] at hvalue
      exact_mod_cast hvalue
    have hone : (2 : ℚ) ^ (0 : Int) < 2 ^ ((m.log2 : Int) + 1 + q) :=
      calc (2 : ℚ) ^ (0 : Int) ≤ m * 2 ^ q := by
            rw [hn, zpow_zero]
            exact_mod_cast hpos
        _ < 2 ^ ((m.log2 : Int) + 1) * 2 ^ q := by gcongr
        _ = 2 ^ ((m.log2 : Int) + 1 + q) := (zpow_add₀ two_ne_zero _ _).symm
    have hexponent := (zpow_lt_zpow_iff_right₀ one_lt_two).mp hone
    change 0 < q + ((m.log2 : Int) + 1)
    omega

lemma fractionPart_of_whole {n j : Nat} {r : Int} (hj : (n * 2 ^ r : ℚ) = j) :
    fractionPart n r = 0 := by
  unfold fractionPart
  by_cases hr : 0 ≤ r
  · rw [if_pos hr]
  · rw [if_neg hr]
    have hcast : ((twoTo (-r).toNat : Nat) : ℚ) = 2 ^ (-r) := by
      rw [cast_twoTo, ← zpow_natCast, Int.toNat_of_nonneg (by omega)]
    have hn : (n : ℚ) = (j * twoTo (-r).toNat : Nat) := by
      rw [Nat.cast_mul, hcast, ← hj, mul_assoc, ← zpow_add₀ two_ne_zero, add_neg_cancel, zpow_zero,
        mul_one]
    rw [Nat.cast_injective hn, Nat.mul_mod_left]

lemma powFinite_isNaturalOrInfinite [Elementary] {m k n j : Nat} {q r : Int} (hm : 0 < m)
    (hk : (m * 2 ^ q : ℚ) = k) (hj : (n * 2 ^ r : ℚ) = j) :
    (powFinite false m q false n r).IsNaturalOrInfinite := by
  unfold powFinite
  rw [fractionPart_of_whole hj]
  generalize wholePart n r = whole
  dsimp only [powFraction]
  rw [Bool.and_false, if_neg (by decide)]
  split
  · exact powHuge_isNaturalOrInfinite _ _
  · obtain ⟨hbase, hexponent⟩ := split_wholeAt hm hk
    rw [if_neg (by decide), if_pos rfl]
    exact (powerLoop_wholeAt ⟨one, 0⟩ _ _ whole one_wholeAt hbase hexponent).scale

lemma IsNatural.not_same_half {y : Binary64} (hy : y.IsNatural) :
    y.same half = false ∧ y.same half.neg = false := by
  obtain ⟨m, q, rfl, -, n, hn⟩ := hy
  constructor <;> rw [Bool.eq_false_iff] <;> intro hsame
  · have heq := same_finite_iff.mp hsame
    simp only [ofSigned, half_value, hn, Bool.false_eq_true, if_false] at heq
    have htwice : 2 * n = 1 := by
      have hcast : (2 * n : ℚ) = 1 := by rw [heq]; norm_num
      exact_mod_cast hcast
    omega
  · have heq := same_finite_iff.mp hsame
    have hnonneg : (0 : ℚ) ≤ n := Nat.cast_nonneg n
    simp only [ofSigned, half_value, hn, Bool.false_eq_true, if_false, Bool.not_false,
      if_true] at heq
    linarith

/-- A whole number to a whole or infinite power is whole or infinite. -/
lemma pow_isNaturalOrInfinite [Elementary] {x y : Binary64} (hx : x.IsNatural)
    (hy : y.IsNaturalOrInfinite) : (x.pow y).IsNaturalOrInfinite := by
  obtain ⟨m, q, rfl, hcanonical, k, hk⟩ := hx
  unfold pow
  split
  · exact .inl one_isNatural
  split
  · exact .inl ⟨m, q, rfl, hcanonical, k, hk⟩
  obtain hwhole | rfl := hy
  · obtain ⟨hhalf, hminus⟩ := hwhole.not_same_half
    obtain ⟨n, r, rfl, -, j, hj⟩ := hwhole
    obtain rfl | hm := Nat.eq_zero_or_pos m
    · exact .inl zero_isNatural
    · obtain ⟨i, rfl⟩ := Nat.exists_eq_succ_of_ne_zero hm.ne'
      rw [hhalf, hminus]
      exact powFinite_isNaturalOrInfinite hm hk hj
  · cases m with
    | zero => exact .inl zero_isNatural
    | succ m => exact powHuge_isNaturalOrInfinite _ _

end Binary64

lemma Literal.value?_isNatural {digits : String} {v : Binary64}
    (h : Literal.value? digits = some v) : v.IsNatural := by
  unfold Literal.value? at h
  split at h
  · have hwhole : (Binary64.ofNat (digitsValue digits.toList)).IsNaturalOrInfinite :=
      Binary64.ofRatio_isNaturalOrInfinite Nat.one_pos (div_one _)
    split at h
    · next hvalue =>
      cases h
      rw [hvalue] at hwhole
      exact hwhole.resolve_right nofun
    · cases h
  · cases h

end HiToolchain
