import HiToolchain.Proofs.Nearest
import HiToolchain.Proofs.WholeDecimals

/-!
# Shortest decimals

The search for the digits of a number tries the grids of powers of ten from the first digit of the
number down. Seventeen digits are enough, since the numbers of the format are farther apart than
the seventeenth digit counts. No decimal with fewer digits than the one found rounds to the number:
whatever its exponent is, it could be replaced by a decimal on one of the grids that the search has
passed.
-/

namespace HiToolchain

open Binary64 (Canonical Within lowEnd highEnd)

namespace Decimal

/-- The number that a decimal denotes. -/
def value (d : Decimal) : ℚ := d.digits * 10 ^ d.exponent

/-- The number that a decimal with a sign rounds to. -/
def round (negative : Bool) (d : Decimal) : Binary64 :=
  .ofRatio negative (d.digits * tenTo d.exponent.toNat) (tenTo (-d.exponent).toNat)

/-- Of the decimals that round to `m * 2 ^ q` one with the fewest digits, and of those one that is
nearest to it. -/
structure IsShortest (d : Decimal) (m : Nat) (q : Int) : Prop where
  rounds : d.round false = .finite false m q
  fewest : ∀ d' : Decimal, d'.round false = .finite false m q →
    d.digitChars.length ≤ d'.digitChars.length
  closest : ∀ d' : Decimal, d'.round false = .finite false m q →
    d'.digitChars.length = d.digitChars.length →
    |m * 2 ^ q - d.value| ≤ |m * 2 ^ q - d'.value|

/-! ### Decimals between the ends -/

lemma pow_mul_zpow (l : Nat) (i : Int) : ((10 ^ l : Nat) * 10 ^ i : ℚ) = 10 ^ (l + i) := by
  rw [zpow_add₀ (by norm_num) l, zpow_natCast, Nat.cast_pow, Nat.cast_ofNat]

lemma value_eq (d : Decimal) :
    ((d.digits * tenTo d.exponent.toNat : Nat) / (tenTo (-d.exponent).toNat : Nat) : ℚ) =
      d.value := by
  have hten : (10 : ℚ) ^ (-d.exponent).toNat ≠ 0 := by positivity
  rw [Nat.cast_mul, cast_tenTo, cast_tenTo, pow_toNat (by norm_num) d.exponent, value,
    ← mul_assoc, mul_div_assoc, div_self hten, mul_one]

lemma round_eq_iff {m : Nat} {q : Int} (h : Canonical m q) (negative : Bool) (d : Decimal) :
    d.round negative = .finite negative m q ↔ Within d.value m q := by
  rw [round, Binary64.ofRatio_eq_iff negative (tenTo_pos _) h, value_eq]

section

variable {m : Nat} {q : Int}

lemma roundsTo_iff (a : Nat) (i : Int) : roundsTo m q a i ↔ Within (a * 10 ^ i) m q := by
  have hlow : ∀ b : Nat, crossBinary b (q - 2) i ≤ crossDecimal a i (q - 2) ↔
      (b * 2 ^ (q - 2) : ℚ) ≤ a * 10 ^ i := fun b => crossBinary_le_crossDecimal_iff
  have hhigh : ∀ b : Nat, crossDecimal a i (q - 2) ≤ crossBinary b (q - 2) i ↔
      (a * 10 ^ i : ℚ) ≤ b * 2 ^ (q - 2) := fun b => crossDecimal_le_crossBinary_iff
  unfold roundsTo
  dsimp only
  by_cases heven : m % 2 = 0
  · rw [if_pos (by simpa using heven), Bool.and_eq_true, decide_eq_true_eq, decide_eq_true_eq,
      hlow, hhigh]
    exact ⟨fun h => ⟨h.1, h.2, by omega⟩, fun h => ⟨h.low, h.high⟩⟩
  · rw [if_neg (by simpa using heven), Bool.and_eq_true, decide_eq_true_eq, decide_eq_true_eq,
      ← not_le, ← not_le, hhigh, hlow, not_le, not_le]
    exact ⟨fun h => ⟨h.1.le, h.2.le, fun _ => h⟩, fun h => h.inside (by omega)⟩

lemma within_self (hm : 0 < m) (q : Int) :
    lowEnd m q < m * 2 ^ q ∧ (m * 2 ^ q : ℚ) < highEnd m q := by
  have hpower : (0 : ℚ) < 2 ^ q := by positivity
  have hhigh := Binary64.two_mul_highEnd m q
  refine ⟨?_, by linarith⟩
  cases hnarrow : narrowBelow m q with
  | true =>
    obtain ⟨-, -, hlow⟩ := Binary64.two_mul_lowEnd_narrow hnarrow
    linarith
  | false =>
    have hlow := Binary64.two_mul_lowEnd hm hnarrow
    linarith

/-- Between a decimal that rounds to a number and the number itself all decimals round to it. -/
lemma within_between {x y : ℚ} (hx : Within x m q) (hm : 0 < m)
    (h : x ≤ y ∧ y ≤ m * 2 ^ q ∨ m * 2 ^ q ≤ y ∧ y ≤ x) : Within y m q := by
  obtain ⟨hlow, hhigh⟩ := within_self hm q
  obtain ⟨hxy, hy⟩ | ⟨hy, hyx⟩ := h
  · refine ⟨hx.low.trans hxy, (hy.trans_lt hhigh).le, fun hodd => ?_⟩
    exact ⟨(hx.inside hodd).1.trans_le hxy, hy.trans_lt hhigh⟩
  · refine ⟨(hlow.trans_le hy).le, hyx.trans hx.high, fun hodd => ?_⟩
    exact ⟨hlow.trans_le hy, hyx.trans_lt (hx.inside hodd).2⟩

lemma within_pos {x : ℚ} (hx : Within x m q) (hm : 0 < m) : 0 < x := by
  refine lt_of_lt_of_le ?_ hx.low
  have hfour : 0 < 4 * m - if narrowBelow m q then 1 else 2 := by split <;> omega
  have hcast : (0 : ℚ) < (4 * m - if narrowBelow m q then 1 else 2 : Nat) := by
    exact_mod_cast hfour
  rw [Binary64.lowEnd]
  positivity

/-! ### The neighbours on a grid -/

/-- The number as a whole number of units of `10 ^ i`, rounded down. -/
def floorOn (m : Nat) (q i : Int) : Nat := crossBinary m q i / crossDecimal 1 i q

lemma crossDecimal_eq_mul (a : Nat) (i e : Int) : crossDecimal a i e = a * crossDecimal 1 i e := by
  unfold crossDecimal
  ring

lemma crossDecimal_one_pos (i e : Int) : 0 < crossDecimal 1 i e :=
  Nat.mul_pos (Nat.mul_pos Nat.one_pos (tenTo_pos _)) (twoTo_pos _)

lemma floorOn_le (m : Nat) (q i : Int) : (floorOn m q i * 10 ^ i : ℚ) ≤ m * 2 ^ q := by
  rw [← crossDecimal_le_crossBinary_iff, crossDecimal_eq_mul]
  exact Nat.div_mul_le_self _ _

lemma lt_floorOn (m : Nat) (q i : Int) : (m * 2 ^ q : ℚ) < (floorOn m q i + 1 : Nat) * 10 ^ i := by
  rw [← not_le, ← crossDecimal_le_crossBinary_iff, crossDecimal_eq_mul, not_le]
  exact Nat.lt_mul_of_div_lt (Nat.lt_succ_self _) (crossDecimal_one_pos i q)

lemma le_floorOn_iff (m : Nat) (q i : Int) (a : Nat) :
    a ≤ floorOn m q i ↔ (a * 10 ^ i : ℚ) ≤ m * 2 ^ q := by
  rw [← crossDecimal_le_crossBinary_iff, crossDecimal_eq_mul, floorOn,
    Nat.le_div_iff_mul_le (crossDecimal_one_pos i q)]

lemma candidate?_eq_none_iff {i : Int} : candidate? m q i = none ↔
    ¬ roundsTo m q (floorOn m q i) i ∧ ¬ roundsTo m q (floorOn m q i + 1) i := by
  unfold candidate?
  dsimp only
  rw [← floorOn]
  cases roundsTo m q (floorOn m q i) i <;> cases roundsTo m q (floorOn m q i + 1) i
  · simp
  · simp
  · simp
  · simp only [not_true, false_and, iff_false]
    split <;> simp

/-- On which side of the middle between its neighbours the number lies is seen from the rest of
the division. -/
lemma middle_iff (m : Nat) (q i : Int) :
    ((2 * (m * 2 ^ q) : ℚ) ≤ floorOn m q i * 10 ^ i + (floorOn m q i + 1 : Nat) * 10 ^ i ↔
      2 * (crossBinary m q i % crossDecimal 1 i q) ≤ crossDecimal 1 i q) ∧
    ((floorOn m q i * 10 ^ i + (floorOn m q i + 1 : Nat) * 10 ^ i : ℚ) ≤ 2 * (m * 2 ^ q) ↔
      crossDecimal 1 i q ≤ 2 * (crossBinary m q i % crossDecimal 1 i q)) := by
  have hmiddle : (floorOn m q i * 10 ^ i + (floorOn m q i + 1 : Nat) * 10 ^ i : ℚ) =
      (2 * floorOn m q i + 1 : Nat) * 10 ^ i := by
    push_cast
    ring
  have htwice : (2 * (m * 2 ^ q) : ℚ) = (2 * m : Nat) * 2 ^ q := by
    push_cast
    ring
  have hbinary : crossBinary (2 * m) q i = 2 * crossBinary m q i := by
    unfold crossBinary
    ring
  have hsplit := Nat.div_add_mod' (crossBinary m q i) (crossDecimal 1 i q)
  rw [← floorOn] at hsplit
  rw [hmiddle, htwice, ← crossBinary_le_crossDecimal_iff, ← crossDecimal_le_crossBinary_iff,
    hbinary, crossDecimal_eq_mul, Nat.add_mul, Nat.mul_assoc]
  omega

/-- Of the multiples of a power of ten that round to the number one of the two around it is the
nearest. -/
lemma exists_neighbour {i : Int} {b : Nat} (hm : 0 < m) (hb : Within (b * 10 ^ i) m q) :
    ∃ c, (c = floorOn m q i ∨ c = floorOn m q i + 1) ∧ Within (c * 10 ^ i) m q ∧
      |m * 2 ^ q - (c * 10 ^ i : ℚ)| ≤ |m * 2 ^ q - (b * 10 ^ i : ℚ)| := by
  have hunit : (0 : ℚ) < 10 ^ i := by positivity
  obtain hle | hgt := le_or_gt b (floorOn m q i)
  · have hbelow := floorOn_le m q i
    have hcast : (b * 10 ^ i : ℚ) ≤ floorOn m q i * 10 ^ i := by gcongr
    refine ⟨floorOn m q i, .inl rfl, within_between hb hm (.inl ⟨hcast, hbelow⟩), ?_⟩
    rw [abs_of_nonneg (by linarith), abs_of_nonneg (by linarith)]
    linarith
  · have habove := (lt_floorOn m q i).le
    have hcast : ((floorOn m q i + 1 : Nat) * 10 ^ i : ℚ) ≤ b * 10 ^ i := by
      gcongr
      exact hgt
    refine ⟨floorOn m q i + 1, .inr rfl, within_between hb hm (.inr ⟨habove, hcast⟩), ?_⟩
    rw [abs_of_nonpos (by linarith), abs_of_nonpos (by linarith)]
    linarith

lemma candidate?_ne_none {i : Int} {b : Nat} (hm : 0 < m) (hb : Within (b * 10 ^ i) m q) :
    candidate? m q i ≠ none := by
  obtain ⟨c, hc, hwithin, -⟩ := exists_neighbour hm hb
  rw [← roundsTo_iff] at hwithin
  intro hnone
  obtain ⟨hfloor, hnext⟩ := candidate?_eq_none_iff.mp hnone
  obtain rfl | rfl := hc
  · exact hfloor hwithin
  · exact hnext hwithin

/-- Of the two neighbours that round to the number the nearer one is found. -/
lemma candidate?_nearer {i : Int} {a : Nat} (h : candidate? m q i = some a) :
    (a = floorOn m q i ∨ a = floorOn m q i + 1) ∧
      ∀ c, c = floorOn m q i ∨ c = floorOn m q i + 1 → Within (c * 10 ^ i) m q →
        |m * 2 ^ q - (a * 10 ^ i : ℚ)| ≤ |m * 2 ^ q - (c * 10 ^ i : ℚ)| := by
  have hlt : (floorOn m q i * 10 ^ i : ℚ) < (floorOn m q i + 1 : Nat) * 10 ^ i :=
    (floorOn_le m q i).trans_lt (lt_floorOn m q i)
  have hleft := Binary64.abs_sub_le_left_iff (x := m * 2 ^ q) hlt
  have hright := Binary64.abs_sub_le_right_iff (x := m * 2 ^ q) hlt
  rw [(middle_iff m q i).1] at hleft
  rw [(middle_iff m q i).2] at hright
  unfold candidate? at h
  dsimp only at h
  rw [← floorOn] at h
  split at h
  · split at h
    · next hhalf =>
      cases h
      simp only [Bool.or_eq_true, decide_eq_true_eq, Bool.and_eq_true, beq_iff_eq] at hhalf
      refine ⟨.inl rfl, ?_⟩
      rintro c (rfl | rfl) -
      · exact le_rfl
      · exact hleft.mpr (by omega)
    · next hhalf =>
      cases h
      simp only [Bool.or_eq_true, decide_eq_true_eq, Bool.and_eq_true, beq_iff_eq] at hhalf
      refine ⟨.inr rfl, ?_⟩
      rintro c (rfl | rfl) -
      · exact hright.mpr (by omega)
      · exact le_rfl
  · next hnext =>
    cases h
    refine ⟨.inl rfl, ?_⟩
    rintro c (rfl | rfl) hc
    · exact le_rfl
    · rw [← roundsTo_iff, hnext] at hc
      cases hc
  · next hfloor hnext =>
    cases h
    refine ⟨.inr rfl, ?_⟩
    rintro c (rfl | rfl) hc
    · rw [← roundsTo_iff, hfloor] at hc
      cases hc
    · exact le_rfl
  · cases h

/-- What is found on a grid rounds to the number, and nothing on the grid that does is nearer. -/
lemma candidate?_eq_some {i : Int} {a : Nat} (hm : 0 < m) (h : candidate? m q i = some a) :
    a ≤ floorOn m q i + 1 ∧ floorOn m q i ≤ a ∧ Within (a * 10 ^ i) m q ∧
      ∀ b : Nat, Within (b * 10 ^ i) m q →
        |m * 2 ^ q - (a * 10 ^ i : ℚ)| ≤ |m * 2 ^ q - (b * 10 ^ i : ℚ)| := by
  obtain ⟨hneighbour, hnearer⟩ := candidate?_nearer h
  refine ⟨by omega, by omega, (roundsTo_iff a i).mp (roundsTo_of_candidate? h), fun b hb => ?_⟩
  obtain ⟨c, hc, hwithin, hcb⟩ := exists_neighbour hm hb
  exact (hnearer c hc hwithin).trans hcb

/-! ### Enough digits -/

/-- A grid that is finer than the ends are apart has a decimal between them. -/
lemma candidate?_ne_none_of_lt {i : Int} (hm : 0 < m)
    (h : (10 : ℚ) ^ i < highEnd m q - lowEnd m q) : candidate? m q i ≠ none := by
  obtain ⟨hlow, hhigh⟩ := within_self hm q
  have hfloor := floorOn_le m q i
  have hnext := lt_floorOn m q i
  obtain habove | hbelow := lt_or_ge (lowEnd m q) (floorOn m q i * 10 ^ i)
  · exact candidate?_ne_none hm ⟨habove.le, by linarith, fun _ => ⟨habove, by linarith⟩⟩
  · have hstep : ((floorOn m q i + 1 : Nat) * 10 ^ i : ℚ) < highEnd m q := by
      push_cast
      linarith
    exact candidate?_ne_none hm ⟨by linarith, hstep.le, fun _ => ⟨by linarith, hstep⟩⟩

/-- Seventeen digits are enough for every number of the format. -/
lemma lt_width (h : Canonical m q) (hm : 0 < m) {top : Int} (htop : (10 : ℚ) ^ top ≤ m * 2 ^ q) :
    (10 : ℚ) ^ (top - 16) < highEnd m q - lowEnd m q := by
  have hpower : (0 : ℚ) < 2 ^ q := by positivity
  have hsplit : (10 : ℚ) ^ top = 10 ^ (top - 16) * 10 ^ 16 := by
    rw [← zpow_natCast, ← zpow_add₀ (by norm_num)]
    congr 1
    omega
  have hhigh := Binary64.two_mul_highEnd m q
  rw [hsplit] at htop
  cases hnarrow : narrowBelow m q with
  | true =>
    obtain ⟨hm52, -, hlow⟩ := Binary64.two_mul_lowEnd_narrow hnarrow
    have hbits : (m : ℚ) = 2 ^ 52 := by
      rw [hm52]
      exact cast_twoTo 52
    rw [hbits] at htop
    linarith
  | false =>
    have hlow := Binary64.two_mul_lowEnd hm hnarrow
    have hbits : (m : ℚ) < 2 ^ 53 := by
      have hlt : m < 2 ^ 53 := h.lt_twoTo
      exact_mod_cast hlt
    have hvalue : (m * 2 ^ q : ℚ) < 2 ^ 53 * 2 ^ q := by gcongr
    linarith

/-! ### The place of the first digit -/

lemma toDigits_bounds {n : Nat} (hn : 0 < n) :
    ∃ l : Nat, (Nat.toDigits 10 n).length = l + 1 ∧ 10 ^ l ≤ n ∧ n < 10 ^ (l + 1) := by
  have hpos := Nat.length_toDigits_pos (b := 10) (n := n)
  obtain ⟨l, hl⟩ : ∃ l, (Nat.toDigits 10 n).length = l + 1 :=
    ⟨(Nat.toDigits 10 n).length - 1, by omega⟩
  refine ⟨l, hl, ?_, (Nat.length_toDigits_le_iff (by decide) (by omega)).mp hl.le⟩
  obtain rfl | hl' := Nat.eq_zero_or_pos l
  · exact hn
  · by_contra hlt
    have hshort := (Nat.length_toDigits_le_iff (by decide) hl').mpr (not_le.mp hlt)
    omega

lemma magnitude_bounds {n d : Nat} (hn : 0 < n) (hd : 0 < d) :
    (10 : ℚ) ^ (magnitude n d - 1) ≤ n / d ∧ (n / d : ℚ) < 10 ^ magnitude n d := by
  have hn' : (0 : ℚ) < n := by exact_mod_cast hn
  have hd' : (0 : ℚ) < d := by exact_mod_cast hd
  unfold magnitude
  split
  · next hle =>
    obtain ⟨l, hl, hlow, hhigh⟩ := toDigits_bounds (Nat.div_pos hle hd)
    rw [hl, Nat.cast_add, Nat.cast_one, add_sub_cancel_right, zpow_natCast, le_div_iff₀ hd',
      div_lt_iff₀ hd']
    rw [Nat.le_div_iff_mul_le hd] at hlow
    rw [Nat.div_lt_iff_lt_mul hd] at hhigh
    exact ⟨by exact_mod_cast hlow, by exact_mod_cast hhigh⟩
  · next hgt =>
    obtain ⟨l, hl, hlow, hhigh⟩ := toDigits_bounds (Nat.div_pos (a := d - 1) (by omega) hn)
    rw [Nat.le_div_iff_mul_le hn] at hlow
    rw [Nat.div_lt_iff_lt_mul hn] at hhigh
    have hlow' : (10 ^ l * n : ℚ) < d := by
      have hlt : 10 ^ l * n < d := by omega
      exact_mod_cast hlt
    have hhigh' : (d : ℚ) ≤ 10 ^ (l + 1) * n := by
      have hle : d ≤ 10 ^ (l + 1) * n := by omega
      exact_mod_cast hle
    have hexponent : (1 : Int) - (l + 1 : Nat) = -(l : Int) := by omega
    have hexponent' : -(l : Int) - 1 = -((l + 1 : Nat) : Int) := by omega
    rw [hl, hexponent, hexponent', zpow_neg, zpow_neg, zpow_natCast, zpow_natCast, le_div_iff₀ hd',
      div_lt_iff₀ hd', inv_mul_le_iff₀ (by positivity), lt_inv_mul_iff₀ (by positivity)]
    exact ⟨hhigh', hlow'⟩

/-! ### The search -/

/-- The search ends on the coarsest grid with a decimal that rounds to the number. -/
lemma scan_spec {fuel : Nat} {i : Int} {k : Nat} (hk : k < fuel)
    (hcandidate : candidate? m q (i - k) ≠ none) :
    candidate? m q (scan m q fuel i).exponent = some (scan m q fuel i).digits ∧
      (scan m q fuel i).exponent ≤ i ∧
      ∀ j, (scan m q fuel i).exponent < j → j ≤ i → candidate? m q j = none := by
  induction fuel generalizing i k with
  | zero => omega
  | succ fuel ih =>
    rw [scan]
    cases hhere : candidate? m q i with
    | some a => exact ⟨hhere, le_rfl, fun j hlow hhigh => absurd hlow (not_lt.mpr hhigh)⟩
    | none =>
      have hpos : 0 < k := by
        rw [Nat.pos_iff_ne_zero]
        rintro rfl
        rw [Nat.cast_zero, sub_zero] at hcandidate
        exact hcandidate hhere
      have hshift : i - 1 - (k - 1 : Nat) = i - k := by omega
      rw [← hshift] at hcandidate
      obtain ⟨hfound, hle, hcoarser⟩ := ih (by omega) hcandidate
      refine ⟨hfound, hle.trans (by omega), fun j hlow hhigh => ?_⟩
      obtain rfl | hlt := hhigh.eq_or_lt
      · exact hhere
      · exact hcoarser j hlow (by omega)

lemma digits_pos_of_within {a : Nat} {i : Int} (hm : 0 < m) (h : Within (a * 10 ^ i) m q) :
    0 < a := by
  have hpos := within_pos h hm
  rw [Nat.pos_iff_ne_zero]
  rintro rfl
  simp at hpos

/-- What has `k` digits and rounds to a number can be replaced by a multiple of the power of ten
that is the last of `k` digits of the number, without loss. -/
lemma exists_on_grid {top : Int} {k a : Nat} {j : Int} (hm : 0 < m)
    (hlow : (10 : ℚ) ^ top ≤ m * 2 ^ q) (hhigh : (m * 2 ^ q : ℚ) < 10 ^ (top + 1)) (hk : 0 < k)
    (ha : a < 10 ^ k) (h : Within (a * 10 ^ j) m q) :
    ∃ b : Nat, Within (b * 10 ^ (top - k + 1)) m q ∧
      |m * 2 ^ q - (b * 10 ^ (top - k + 1) : ℚ)| ≤ |m * 2 ^ q - (a * 10 ^ j : ℚ)| := by
  have hten : (10 : ℚ) ≠ 0 := by norm_num
  by_cases habove : (10 : ℚ) ^ (top + 1) ≤ a * 10 ^ j
  · have hgrid : ((10 ^ k : Nat) : ℚ) * 10 ^ (top - k + 1) = 10 ^ (top + 1) := by
      rw [pow_mul_zpow]
      congr 1
      omega
    refine ⟨10 ^ k, ?_, ?_⟩
    · rw [hgrid]
      exact within_between h hm (.inr ⟨hhigh.le, habove⟩)
    · rw [hgrid, abs_of_nonpos (by linarith), abs_of_nonpos (by linarith)]
      linarith
  by_cases hbelow : (a * 10 ^ j : ℚ) < 10 ^ top
  · have hgrid : ((10 ^ (k - 1) : Nat) : ℚ) * 10 ^ (top - k + 1) = 10 ^ top := by
      rw [pow_mul_zpow]
      congr 1
      omega
    refine ⟨10 ^ (k - 1), ?_, ?_⟩
    · rw [hgrid]
      exact within_between h hm (.inl ⟨hbelow.le, hlow⟩)
    · rw [hgrid, abs_of_nonneg (by linarith), abs_of_nonneg (by linarith)]
      linarith
  -- between the powers of ten the last digit stands at the grid or before it
  have hj : top - k + 1 ≤ j := by
    have hcast : (a : ℚ) < 10 ^ k := by exact_mod_cast ha
    have hunit : (0 : ℚ) < 10 ^ j := by positivity
    have hlt : (10 : ℚ) ^ top < 10 ^ (k + j) := by
      calc (10 : ℚ) ^ top ≤ a * 10 ^ j := not_lt.mp hbelow
        _ < 10 ^ k * 10 ^ j := by gcongr
        _ = 10 ^ (k + j) := by rw [zpow_add₀ hten, zpow_natCast]
    have hexponent := (zpow_lt_zpow_iff_right₀ (by norm_num)).mp hlt
    omega
  have hgrid : ((a * 10 ^ (j - (top - k + 1)).toNat : Nat) : ℚ) * 10 ^ (top - k + 1) =
      a * 10 ^ j := by
    rw [Nat.cast_mul, mul_assoc, pow_mul_zpow]
    congr 2
    omega
  exact ⟨a * 10 ^ (j - (top - k + 1)).toNat, by rwa [hgrid], by rw [hgrid]⟩

/-- The decimals that the search can find have no zero at the end, but for ten units of the first
digit. -/
lemma digits_of_found {top i : Int} {a : Nat} (hm : 0 < m)
    (hlow : (10 : ℚ) ^ top ≤ m * 2 ^ q) (hhigh : (m * 2 ^ q : ℚ) < 10 ^ (top + 1))
    (hfound : candidate? m q i = some a) (hi : i ≤ top)
    (hcoarser : ∀ j, i < j → j ≤ top → candidate? m q j = none) :
    10 ^ (top - i).toNat ≤ a ∧
      (a % 10 ≠ 0 ∧ a < 10 ^ ((top - i).toNat + 1) ∨ a = 10 ∧ (top - i).toNat = 0) := by
  have hten : (10 : ℚ) ≠ 0 := by norm_num
  obtain ⟨hnext, hfloor, hwithin, -⟩ := candidate?_eq_some hm hfound
  have hlower : 10 ^ (top - i).toNat ≤ floorOn m q i := by
    rw [le_floorOn_iff, pow_mul_zpow, Int.toNat_of_nonneg (by omega), sub_add_cancel]
    exact hlow
  have hupper : floorOn m q i < 10 ^ ((top - i).toNat + 1) := by
    rw [← not_le, le_floorOn_iff, pow_mul_zpow, not_le]
    have hexponent : (((top - i).toNat + 1 : Nat) : Int) + i = top + 1 := by omega
    rw [hexponent]
    exact hhigh
  refine ⟨by omega, ?_⟩
  obtain rfl | hlt := hi.eq_or_lt
  · rw [sub_self, Int.toNat_zero, zero_add, pow_one] at hupper
    rw [sub_self, Int.toNat_zero, pow_zero] at hlower
    rw [sub_self, Int.toNat_zero, zero_add, pow_one]
    omega
  · -- a zero at the end would have been found before
    have hdigit : a % 10 ≠ 0 := by
      intro hzero
      have hmove : ((a / 10 : Nat) * 10 ^ (i + 1) : ℚ) = a * 10 ^ i := by
        have hcast : ((a / 10 : Nat) : ℚ) * 10 = a := by
          have hmul : a / 10 * 10 = a := by omega
          exact_mod_cast hmul
        rw [zpow_add_one₀ hten, ← hcast]
        ring
      exact candidate?_ne_none hm (hmove ▸ hwithin) (hcoarser (i + 1) (by omega) (by omega))
    have htens : 10 ^ ((top - i).toNat + 1) % 10 = 0 := by rw [pow_succ, Nat.mul_mod_left]
    refine .inl ⟨hdigit, ?_⟩
    have hne : a ≠ 10 ^ ((top - i).toNat + 1) := by
      intro heq
      exact hdigit (heq ▸ htens)
    omega

lemma trim_value (fuel : Nat) (d : Decimal) : (trim fuel d).value = d.value := by
  induction fuel generalizing d with
  | zero => rfl
  | succ fuel ih =>
    rw [trim]
    split
    · next hzero =>
      have hcast : ((d.digits / 10 : Nat) : ℚ) * 10 = d.digits := by
        have hmul : d.digits / 10 * 10 = d.digits := by omega
        exact_mod_cast hmul
      rw [ih, value, value, zpow_add_one₀ (by norm_num), ← hcast]
      ring
    · rfl

lemma trim_found {d : Decimal} {l : Nat}
    (h : d.digits % 10 ≠ 0 ∧ d.digits < 10 ^ (l + 1) ∨ d.digits = 10 ∧ l = 0) :
    (trim 1 d).digits % 10 ≠ 0 ∧ (trim 1 d).digitChars.length ≤ l + 1 := by
  obtain ⟨hdigit, hlt⟩ | ⟨hten, rfl⟩ := h
  · have hkept : trim 1 d = d := if_neg fun hzero => hdigit hzero.2
    rw [hkept]
    exact ⟨hdigit, (Nat.length_toDigits_le_iff (by decide) (by omega)).mpr hlt⟩
  · have hmoved : trim 1 d = ⟨1, d.exponent + 1⟩ := by
      rw [trim, hten]
      rfl
    rw [hmoved]
    exact ⟨by simp, (Nat.length_toDigits_le_iff (by decide) (by omega)).mpr (by norm_num)⟩

lemma isShortest_of_found {top i : Int} {a : Nat} {d : Decimal} (h : Canonical m q) (hm : 0 < m)
    (hlow : (10 : ℚ) ^ top ≤ m * 2 ^ q) (hhigh : (m * 2 ^ q : ℚ) < 10 ^ (top + 1))
    (hfound : candidate? m q i = some a)
    (hcoarser : ∀ j, i < j → j ≤ top → candidate? m q j = none)
    (hvalue : d.value = a * 10 ^ i) (hlength : d.digitChars.length ≤ top - i + 1) :
    d.IsShortest m q := by
  obtain ⟨-, -, hwithin, hnearest⟩ := candidate?_eq_some hm hfound
  -- every other decimal has a substitute on a grid that is not coarser
  have hother : ∀ d' : Decimal, d'.round false = .finite false m q →
      top - d'.digitChars.length + 1 ≤ i ∧
        ∃ b : Nat, Within (b * 10 ^ (top - d'.digitChars.length + 1)) m q ∧
          |m * 2 ^ q - (b * 10 ^ (top - d'.digitChars.length + 1) : ℚ)| ≤
            |m * 2 ^ q - d'.value| := by
    intro d' hround
    have hwithin' := (round_eq_iff h false d').mp hround
    have hdigits := digits_pos_of_within hm hwithin'
    obtain ⟨l, hl, -, hlt⟩ := toDigits_bounds hdigits
    have hlen : d'.digitChars.length = l + 1 := hl
    obtain ⟨b, hb, hcloser⟩ := exists_on_grid hm hlow hhigh (Nat.succ_pos l) hlt hwithin'
    rw [hlen]
    refine ⟨?_, b, hb, hcloser⟩
    by_contra hcoarse
    exact candidate?_ne_none hm hb (hcoarser _ (by omega) (by omega))
  refine ⟨?_, fun d' hround => ?_, fun d' hround hsame => ?_⟩
  · rw [round_eq_iff h, hvalue]
    exact hwithin
  · obtain ⟨hgrid, -⟩ := hother d' hround
    omega
  · obtain ⟨hgrid, b, hb, hcloser⟩ := hother d' hround
    have hi : top - d'.digitChars.length + 1 = i := by omega
    rw [hi] at hb hcloser
    rw [hvalue]
    exact (hnearest b hb).trans hcloser

/-- The search starts with the grid of the first digit of the number. -/
lemma shortest_eq_scan (hm : 0 < m) (q : Int) :
    ∃ top : Int, (10 : ℚ) ^ top ≤ m * 2 ^ q ∧ (m * 2 ^ q : ℚ) < 10 ^ (top + 1) ∧
      shortest m q = trim 1 (scan m q 17 top) := by
  have hratio : (scaleUp m q / scaleUp 1 (-q) : ℚ) = m * 2 ^ q := by
    have hscale := scaleUp_div_scaleUp m 1 (-q)
    rwa [neg_neg, Nat.cast_one, div_one, zpow_neg, div_inv_eq_mul] at hscale
  obtain ⟨hlow, hhigh⟩ := magnitude_bounds (scaleUp_pos hm q) (scaleUp_pos Nat.one_pos (-q))
  rw [hratio] at hlow hhigh
  refine ⟨magnitude (scaleUp m q) (scaleUp 1 (-q)) - 1, hlow, ?_, ?_⟩
  · rwa [sub_add_cancel]
  · rw [shortest, if_neg hm.ne']

/-- The shortest decimal, and where its first digit stands. -/
lemma shortest_spec (h : Canonical m q) (hm : 0 < m) :
    (shortest m q).IsShortest m q ∧ (shortest m q).digits % 10 ≠ 0 ∧
      ∃ top : Int, (10 : ℚ) ^ top ≤ m * 2 ^ q ∧ (m * 2 ^ q : ℚ) < 10 ^ (top + 1) ∧
        (10 : ℚ) ^ top ≤ (shortest m q).value ∧ (shortest m q).value ≤ 10 ^ (top + 1) := by
  obtain ⟨top, hlow, hhigh, hshortest⟩ := shortest_eq_scan hm q
  have hfew := candidate?_ne_none_of_lt hm (lt_width h hm hlow)
  obtain ⟨hfound, hle, hcoarser⟩ := scan_spec (show 16 < 17 by omega) hfew
  rw [hshortest]
  generalize scan m q 17 top = d at *
  obtain ⟨hmany, hdigits⟩ := digits_of_found hm hlow hhigh hfound hle hcoarser
  obtain ⟨hdigit, hlength⟩ := trim_found hdigits
  have hvalue : (trim 1 d).value = d.digits * 10 ^ d.exponent := trim_value 1 d
  refine ⟨isShortest_of_found h hm hlow hhigh hfound hcoarser hvalue (by omega), hdigit, top, hlow,
    hhigh, ?_⟩
  have hmost : d.digits ≤ 10 ^ ((top - d.exponent).toNat + 1) := by
    obtain ⟨-, hlt⟩ | ⟨hten, hzero⟩ := hdigits
    · exact hlt.le
    · rw [hten, hzero]
      exact le_rfl
  rw [hvalue]
  constructor
  · calc (10 : ℚ) ^ top = (10 ^ (top - d.exponent).toNat : Nat) * 10 ^ d.exponent := by
          rw [pow_mul_zpow]
          congr 1
          omega
      _ ≤ d.digits * 10 ^ d.exponent := by gcongr
  · calc (d.digits * 10 ^ d.exponent : ℚ)
        ≤ (10 ^ ((top - d.exponent).toNat + 1) : Nat) * 10 ^ d.exponent := by gcongr
      _ = 10 ^ (top + 1) := by
          rw [pow_mul_zpow]
          congr 1
          omega

end

end Decimal

end HiToolchain
