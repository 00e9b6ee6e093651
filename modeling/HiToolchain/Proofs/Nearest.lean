import HiToolchain.Decimal.Shortest
import HiToolchain.Proofs.Rounding

/-!
# The nearest number

Rounding yields the number of the format that is nearest to a quotient, and on a tie the one with
an even significand. There is only one such number, and the quotients that round to it are those
between the middles of the gaps around it. The gap below a power of two is half as wide as the one
above, since the number before it has a smaller exponent.
-/

namespace HiToolchain

namespace Binary64

/-- Of the numbers of the format `m * 2 ^ q` is the nearest to `x`, and `m` is even if there is
another one as near. -/
structure Nearest (x : ℚ) (m : Nat) (q : Int) : Prop where
  canonical : Canonical m q
  le : ∀ m' q', Canonical m' q' → |x - m * 2 ^ q| ≤ |x - m' * 2 ^ q'|
  even : ∀ m' q', Canonical m' q' → (m * 2 ^ q : ℚ) ≠ m' * 2 ^ q' →
    |x - m * 2 ^ q| = |x - m' * 2 ^ q'| → m % 2 = 0

/-- The middle of the gap below `m * 2 ^ q`, where zero has no gap below. -/
def lowEnd (m : Nat) (q : Int) : ℚ :=
  (4 * m - if Decimal.narrowBelow m q then 1 else 2 : Nat) * 2 ^ (q - 2)

/-- The middle of the gap above `m * 2 ^ q`. -/
def highEnd (m : Nat) (q : Int) : ℚ := (4 * m + 2 : Nat) * 2 ^ (q - 2)

/-- Between the middles of the gaps, which count where `m` is even. -/
structure Within (x : ℚ) (m : Nat) (q : Int) : Prop where
  low : lowEnd m q ≤ x
  high : x ≤ highEnd m q
  inside : m % 2 = 1 → lowEnd m q < x ∧ x < highEnd m q

/-! ### Gaps -/

lemma two_zpow_eq (q : Int) : (2 : ℚ) ^ q = 4 * 2 ^ (q - 2) := by
  rw [zpow_sub₀ two_ne_zero]
  norm_num
  ring

lemma two_mul_highEnd (m : Nat) (q : Int) : 2 * highEnd m q = m * 2 ^ q + (m + 1) * 2 ^ q := by
  rw [highEnd, two_zpow_eq q]
  push_cast
  ring

lemma lowEnd_zero (q : Int) : lowEnd 0 q = 0 := by simp [lowEnd]

lemma two_mul_lowEnd {m : Nat} {q : Int} (hm : 0 < m) (hwide : Decimal.narrowBelow m q = false) :
    2 * lowEnd m q = m * 2 ^ q + (m - 1) * 2 ^ q := by
  rw [lowEnd, if_neg (by simp [hwide]), two_zpow_eq q, Nat.cast_sub (by omega)]
  push_cast
  ring

lemma two_mul_lowEnd_narrow {m : Nat} {q : Int} (hnarrow : Decimal.narrowBelow m q) :
    m = twoTo 52 ∧ leastExponent < q ∧ 2 * lowEnd m q = m * 2 ^ q + (m - 1 / 2) * 2 ^ q := by
  have hm : m = twoTo 52 ∧ leastExponent < q := by simpa [Decimal.narrowBelow] using hnarrow
  have hpos := twoTo_pos 52
  refine ⟨hm.1, hm.2, ?_⟩
  rw [lowEnd, if_pos hnarrow, two_zpow_eq q, Nat.cast_sub (by omega)]
  push_cast
  ring

section

variable {m m' : Nat} {q q' : Int}

lemma mul_zpow_of_le (m : Nat) (h : q' ≤ q) :
    (m * 2 ^ q : ℚ) = scaleUp m (q - q') * 2 ^ q' := by
  rw [cast_scaleUp m (by omega), mul_assoc, ← zpow_add₀ two_ne_zero, sub_add_cancel]

/-- A number with a smaller exponent lies half a place below the least significand. -/
lemma Canonical.of_exponent_lt (h : Canonical m q) (h' : Canonical m' q') (hlt : q' < q) :
    twoTo 52 ≤ m ∧ (2 * (m' * 2 ^ q') : ℚ) ≤ (2 * twoTo 52 - 1) * 2 ^ q := by
  have hleading : twoTo 52 ≤ m := by
    have hleast := h'.least_le
    obtain hleading | hq := h.leading
    · exact hleading
    · omega
  refine ⟨hleading, ?_⟩
  have hdouble : twoTo 53 = 2 * twoTo 52 := by decide
  have hm' : (m' : ℚ) + 1 ≤ 2 * twoTo 52 := by
    have hlt := h'.lt_twoTo
    rw [hdouble] at hlt
    exact_mod_cast hlt
  have hpower : (2 * 2 ^ q' : ℚ) ≤ 2 ^ q := by
    rw [mul_comm, ← zpow_add_one₀ two_ne_zero]
    exact zpow_le_zpow_right₀ one_le_two (by omega)
  have hone : (1 : ℚ) ≤ twoTo 52 := by exact_mod_cast twoTo_pos 52
  calc (2 * (m' * 2 ^ q') : ℚ) = m' * (2 * 2 ^ q') := by ring
    _ ≤ (2 * twoTo 52 - 1) * 2 ^ q := by gcongr <;> linarith

lemma Canonical.succ_le (h : Canonical m q) (h' : Canonical m' q')
    (hlt : (m * 2 ^ q : ℚ) < m' * 2 ^ q') : ((m + 1) * 2 ^ q : ℚ) ≤ m' * 2 ^ q' := by
  have hpower : (0 : ℚ) < 2 ^ q := by positivity
  obtain hle | hexponent := le_or_gt q q'
  · rw [mul_zpow_of_le m' hle] at hlt ⊢
    have hnext : m < scaleUp m' (q' - q) := by
      exact_mod_cast lt_of_mul_lt_mul_right hlt hpower.le
    gcongr
    exact_mod_cast hnext
  · -- a smaller exponent belongs to a smaller number
    obtain ⟨hleading, hbelow⟩ := h.of_exponent_lt h' hexponent
    have hm : (twoTo 52 : ℚ) ≤ m := by exact_mod_cast hleading
    have hle : (twoTo 52 * 2 ^ q : ℚ) ≤ m * 2 ^ q := by gcongr
    linarith

/-- The middle of the gap above a number is at most the middle to any greater one. -/
lemma two_mul_highEnd_le (h : Canonical m q) (h' : Canonical m' q')
    (hlt : (m * 2 ^ q : ℚ) < m' * 2 ^ q') : 2 * highEnd m q ≤ m * 2 ^ q + m' * 2 ^ q' := by
  have hnext := h.succ_le h' hlt
  rw [two_mul_highEnd]
  linarith

lemma le_two_mul_lowEnd (h : Canonical m q) (h' : Canonical m' q')
    (hlt : (m' * 2 ^ q' : ℚ) < m * 2 ^ q) : (m * 2 ^ q + m' * 2 ^ q' : ℚ) ≤ 2 * lowEnd m q := by
  have hpower : (0 : ℚ) < 2 ^ q := by positivity
  have hm : 0 < m := by
    rw [Nat.pos_iff_ne_zero]
    rintro rfl
    have hnonneg : (0 : ℚ) ≤ m' * 2 ^ q' := by positivity
    simp only [Nat.cast_zero, zero_mul] at hlt
    linarith
  obtain hexponent | hle := lt_or_ge q' q
  · obtain ⟨hleading, hbelow⟩ := h.of_exponent_lt h' hexponent
    cases hnarrow : Decimal.narrowBelow m q with
    | true =>
      obtain ⟨hm52, -, htwice⟩ := two_mul_lowEnd_narrow hnarrow
      rw [htwice, hm52]
      linarith
    | false =>
      have hleast := h'.least_le
      have hmore : twoTo 52 + 1 ≤ m := by
        have hne : m ≠ twoTo 52 := by
          intro heq
          simp [Decimal.narrowBelow, heq] at hnarrow
          omega
        omega
      have hmore' : (twoTo 52 + 1 : ℚ) ≤ m := by exact_mod_cast hmore
      have hscaled : ((twoTo 52 + 1) * 2 ^ q : ℚ) ≤ m * 2 ^ q := by gcongr
      rw [two_mul_lowEnd hm hnarrow]
      linarith
  · rw [mul_zpow_of_le m' hle] at hlt ⊢
    have hprev : scaleUp m' (q' - q) + 1 ≤ m := by
      exact_mod_cast lt_of_mul_lt_mul_right hlt hpower.le
    have hprev' : (scaleUp m' (q' - q) + 1 : ℚ) ≤ m := by exact_mod_cast hprev
    have hscaled : ((scaleUp m' (q' - q) + 1) * 2 ^ q : ℚ) ≤ m * 2 ^ q := by gcongr
    cases hnarrow : Decimal.narrowBelow m q with
    | true =>
      obtain ⟨-, -, htwice⟩ := two_mul_lowEnd_narrow hnarrow
      rw [htwice]
      linarith
    | false =>
      rw [two_mul_lowEnd hm hnarrow]
      linarith

/-- A number of the format has one significand and one exponent. -/
lemma Canonical.unique (h : Canonical m q) (h' : Canonical m' q')
    (heq : (m * 2 ^ q : ℚ) = m' * 2 ^ q') : m = m' ∧ q = q' := by
  have hpower : (0 : ℚ) < 2 ^ q := by positivity
  have hpower' : (0 : ℚ) < 2 ^ q' := by positivity
  obtain hlt | rfl | hgt := lt_trichotomy q q'
  · obtain ⟨hleading, hbelow⟩ := h'.of_exponent_lt h hlt
    have hm : (twoTo 52 : ℚ) ≤ m' := by exact_mod_cast hleading
    have hle : (twoTo 52 * 2 ^ q' : ℚ) ≤ m' * 2 ^ q' := by gcongr
    linarith
  · exact ⟨by exact_mod_cast mul_right_cancel₀ hpower.ne' heq, rfl⟩
  · obtain ⟨hleading, hbelow⟩ := h.of_exponent_lt h' hgt
    have hm : (twoTo 52 : ℚ) ≤ m := by exact_mod_cast hleading
    have hle : (twoTo 52 * 2 ^ q : ℚ) ≤ m * 2 ^ q := by gcongr
    linarith

/-! ### Nearest numbers -/

lemma abs_sub_le_left_iff {x a b : ℚ} (h : a < b) : |x - a| ≤ |x - b| ↔ 2 * x ≤ a + b := by
  have hgap : 0 < b - a := sub_pos.mpr h
  have hsquares : (x - b) ^ 2 - (x - a) ^ 2 = (b - a) * (a + b - 2 * x) := by ring
  rw [← sq_le_sq, ← sub_nonneg, hsquares, mul_nonneg_iff_of_pos_left hgap, sub_nonneg]

lemma abs_sub_le_right_iff {x a b : ℚ} (h : a < b) : |x - b| ≤ |x - a| ↔ a + b ≤ 2 * x := by
  have hgap : 0 < b - a := sub_pos.mpr h
  have hsquares : (x - a) ^ 2 - (x - b) ^ 2 = (b - a) * (2 * x - (a + b)) := by ring
  rw [← sq_le_sq, ← sub_nonneg, hsquares, mul_nonneg_iff_of_pos_left hgap, sub_nonneg]

lemma Within.nearest {x : ℚ} (hx : Within x m q) (h : Canonical m q) : Nearest x m q := by
  -- on the side of another number the middle of the gap comes before the middle to that number
  have hside : ∀ m' q', Canonical m' q' → (m * 2 ^ q : ℚ) ≠ m' * 2 ^ q' →
      |x - m * 2 ^ q| ≤ |x - m' * 2 ^ q'| ∧
        (m % 2 = 1 → |x - m * 2 ^ q| < |x - m' * 2 ^ q'|) := by
    intro m' q' h' hne
    obtain hlt | hgt := lt_or_gt_of_ne hne
    · have hmiddle := two_mul_highEnd_le h h' hlt
      have hhigh := hx.high
      refine ⟨(abs_sub_le_left_iff hlt).mpr (by linarith), fun hodd => ?_⟩
      have hinside := (hx.inside hodd).2
      rw [← not_le, abs_sub_le_right_iff hlt, not_le]
      linarith
    · have hmiddle := le_two_mul_lowEnd h h' hgt
      have hlow := hx.low
      refine ⟨(abs_sub_le_right_iff hgt).mpr (by linarith), fun hodd => ?_⟩
      have hinside := (hx.inside hodd).1
      rw [← not_le, abs_sub_le_left_iff hgt, not_le]
      linarith
  refine ⟨h, fun m' q' h' => ?_, fun m' q' h' hne hdist => ?_⟩
  · by_cases hne : (m * 2 ^ q : ℚ) = m' * 2 ^ q'
    · rw [hne]
    · exact (hside m' q' h' hne).1
  · by_contra hodd
    exact absurd hdist ((hside m' q' h' hne).2 (by omega)).ne

/-- The number after `m * 2 ^ q`, where a greater one exists. -/
lemma Canonical.succ (h : Canonical m q) (h' : Canonical m' q')
    (hlt : (m * 2 ^ q : ℚ) < m' * 2 ^ q') :
    ∃ n r, Canonical n r ∧ (n * 2 ^ r : ℚ) = (m + 1) * 2 ^ q ∧ (m % 2 = 0 → n % 2 = 1) := by
  by_cases hcarry : m + 1 = twoTo 53
  · have hq : q < greatestExponent := by
      by_contra hq
      have hlast : q = greatestExponent := le_antisymm h.le_greatest (not_lt.mp hq)
      have hle := h.succ_le h' hlt
      have hm' : (m' : ℚ) < twoTo 53 := by exact_mod_cast h'.lt_twoTo
      have hpower : (2 : ℚ) ^ q' ≤ 2 ^ q := by
        apply zpow_le_zpow_right₀ one_le_two
        rw [hlast]
        exact h'.le_greatest
      have hcast : (m + 1 : ℚ) = twoTo 53 := by exact_mod_cast hcarry
      have hbelow : (m' * 2 ^ q' : ℚ) < twoTo 53 * 2 ^ q :=
        mul_lt_mul hm' hpower (by positivity) (by positivity)
      rw [hcast] at hle
      linarith
    refine ⟨twoTo 52, q + 1, ⟨by decide, by have := h.least_le; omega, by omega, .inl le_rfl⟩, ?_,
      fun heven => ?_⟩
    · have hcast : (m + 1 : ℚ) = twoTo 53 := by exact_mod_cast hcarry
      have hdouble : (twoTo 53 : ℚ) = twoTo 52 * 2 := by
        rw [cast_twoTo, cast_twoTo, ← pow_succ]
      rw [hcast, zpow_add_one₀ two_ne_zero, hdouble]
      ring
    · have hparity : twoTo 53 % 2 = 0 := by decide
      omega
  · have hlt53 := h.lt_twoTo
    refine ⟨m + 1, q, ⟨by omega, h.least_le, h.le_greatest, ?_⟩, by push_cast; rfl, by omega⟩
    obtain hleading | hleast := h.leading
    · exact .inl (by omega)
    · exact .inr hleast

/-- There is one nearest number: of two that are as near one comes right after the other, so only
one of them is even. -/
lemma Nearest.not_below {x : ℚ} (h : Nearest x m q) (h' : Nearest x m' q') :
    ¬ (m * 2 ^ q : ℚ) < m' * 2 ^ q' := by
  intro hlt
  have hdist : |x - m * 2 ^ q| = |x - m' * 2 ^ q'| :=
    le_antisymm (h.le _ _ h'.canonical) (h'.le _ _ h.canonical)
  have heven := h.even _ _ h'.canonical hlt.ne hdist
  have heven' := h'.even _ _ h.canonical hlt.ne' hdist.symm
  have hmiddle : 2 * x = m * 2 ^ q + m' * 2 ^ q' :=
    le_antisymm ((abs_sub_le_left_iff hlt).mp hdist.le) ((abs_sub_le_right_iff hlt).mp hdist.ge)
  obtain ⟨n, r, hn, hvalue, hodd⟩ := h.canonical.succ h'.canonical hlt
  have hpower : (0 : ℚ) < 2 ^ q := by positivity
  have hgt : (m * 2 ^ q : ℚ) < n * 2 ^ r := by
    rw [hvalue]
    linarith
  have hnext : (n * 2 ^ r : ℚ) ≤ m' * 2 ^ q' := hvalue ▸ h.canonical.succ_le h'.canonical hlt
  -- the next number is not nearer than the first, so it is the second
  have hback := (abs_sub_le_left_iff hgt).mp (h.le _ _ hn)
  obtain ⟨rfl, -⟩ := hn.unique h'.canonical (by linarith)
  have hparity := hodd heven
  omega

lemma Nearest.unique {x : ℚ} (h : Nearest x m q) (h' : Nearest x m' q') : m = m' ∧ q = q' :=
  h.canonical.unique h'.canonical
    (le_antisymm (not_lt.mp (h'.not_below h)) (not_lt.mp (h.not_below h')))

end

/-! ### Rounding -/

lemma roundHalfEven_bounds (n : Nat) {d : Nat} (hd : 0 < d) :
    2 * roundHalfEven n d * d ≤ 2 * n + d ∧ 2 * n ≤ (2 * roundHalfEven n d + 1) * d ∧
      (roundHalfEven n d % 2 = 1 →
        2 * roundHalfEven n d * d < 2 * n + d ∧ 2 * n < (2 * roundHalfEven n d + 1) * d) := by
  have hsplit := Nat.div_add_mod' n d
  have hmod := Nat.mod_lt n hd
  unfold roundHalfEven
  dsimp only
  generalize n / d = f at *
  generalize n % d = r at *
  split
  · next hround =>
    simp only [Bool.or_eq_true, Bool.and_eq_true, decide_eq_true_eq, beq_iff_eq] at hround
    have hexpand : (2 * f + 1) * d = 2 * f * d + d := by ring
    have hexpand' : 2 * f * d = 2 * (f * d) := by ring
    omega
  · next hround =>
    simp only [Bool.or_eq_true, Bool.and_eq_true, decide_eq_true_eq, beq_iff_eq] at hround
    have hexpand : (2 * (f + 1) + 1) * d = 2 * (f * d) + 3 * d := by ring
    have hexpand' : 2 * (f + 1) * d = 2 * (f * d) + 2 * d := by ring
    omega

section

variable {n d : Nat}

/-- The places are at most half a place away from the quotient. -/
lemma places_bounds (hd : 0 < d) :
    (((2 * places n d - 1) * 2 ^ quantum n d : ℚ) ≤ 2 * (n / d)) ∧
      (2 * (n / d) : ℚ) ≤ (2 * places n d + 1) * 2 ^ quantum n d ∧
      (places n d % 2 = 1 → ((2 * places n d - 1) * 2 ^ quantum n d : ℚ) < 2 * (n / d) ∧
        (2 * (n / d) : ℚ) < (2 * places n d + 1) * 2 ^ quantum n d) := by
  have hscale := scaleUp_pos hd (quantum n d)
  have hpower : (0 : ℚ) < 2 ^ quantum n d := by positivity
  have hratio := scaleUp_div_scaleUp n d (quantum n d)
  obtain ⟨hlow, hhigh, hodd⟩ := roundHalfEven_bounds (scaleUp n (-quantum n d)) hscale
  change 2 * places n d * _ ≤ _ at hlow
  change _ ≤ (2 * places n d + 1) * _ at hhigh
  change places n d % 2 = 1 → 2 * places n d * _ < _ ∧ _ < (2 * places n d + 1) * _ at hodd
  generalize scaleUp n (-quantum n d) = N at *
  generalize scaleUp d (quantum n d) = D at *
  have hD : (0 : ℚ) < D := by exact_mod_cast hscale
  have hx : (2 * (n / d) : ℚ) = 2 * N / D * 2 ^ quantum n d := by
    rw [mul_div_assoc, hratio]
    field_simp
  have hlow' : (2 * places n d * D : ℚ) ≤ 2 * N + D := by exact_mod_cast hlow
  have hhigh' : (2 * N : ℚ) ≤ (2 * places n d + 1) * D := by exact_mod_cast hhigh
  rw [hx, mul_le_mul_iff_of_pos_right hpower, mul_le_mul_iff_of_pos_right hpower,
    mul_lt_mul_iff_of_pos_right hpower, mul_lt_mul_iff_of_pos_right hpower, le_div_iff₀ hD,
    div_le_iff₀ hD, lt_div_iff₀ hD, div_lt_iff₀ hD]
  refine ⟨by linarith, by linarith, fun h => ?_⟩
  obtain ⟨hlow₁, hhigh₁⟩ := hodd h
  have hlow₂ : (2 * places n d * D : ℚ) < 2 * N + D := by exact_mod_cast hlow₁
  have hhigh₂ : (2 * N : ℚ) < (2 * places n d + 1) * D := by exact_mod_cast hhigh₁
  exact ⟨by linarith, by linarith⟩

lemma within_of_places {m : Nat} {q : Int} (hd : 0 < d) (hm : places n d = m)
    (hq : quantum n d = q) (hlow : Decimal.narrowBelow m q → (m * 2 ^ q : ℚ) ≤ n / d) :
    Within (n / d) m q := by
  obtain ⟨hfloor, hceil, hodd⟩ := places_bounds (n := n) hd
  rw [hm, hq] at hfloor hceil hodd
  have hpower : (0 : ℚ) < 2 ^ q := by positivity
  have hhigh := two_mul_highEnd m q
  cases hnarrow : Decimal.narrowBelow m q with
  | true =>
    obtain ⟨hm52, -, hends⟩ := two_mul_lowEnd_narrow hnarrow
    have heven : m % 2 = 0 := by rw [hm52]; decide
    have habove := hlow hnarrow
    exact ⟨by linarith, by linarith, by omega⟩
  | false =>
    obtain rfl | hpos := Nat.eq_zero_or_pos m
    · have hnonneg : (0 : ℚ) ≤ n / d := by positivity
      rw [Nat.cast_zero] at hceil hhigh
      exact ⟨by rwa [lowEnd_zero], by linarith, by omega⟩
    · have hends := two_mul_lowEnd hpos hnarrow
      refine ⟨by linarith, by linarith, fun h => ?_⟩
      obtain ⟨hfloor', hceil'⟩ := hodd h
      exact ⟨by linarith, by linarith⟩

/-- A significand that was rounded up to one bit more stands for the next power of two. -/
lemma within_of_carry (hd : 0 < d) (h : places n d = twoTo 53) :
    Within (n / d) (twoTo 52) (quantum n d + 1) := by
  obtain ⟨hfloor, hceil, -⟩ := places_bounds (n := n) hd
  have hnarrow : Decimal.narrowBelow (twoTo 52) (quantum n d + 1) := by
    have hleast : leastExponent ≤ quantum n d := le_max_right _ _
    simp [Decimal.narrowBelow]
    omega
  obtain ⟨-, -, hends⟩ := two_mul_lowEnd_narrow hnarrow
  have hhigh := two_mul_highEnd (twoTo 52) (quantum n d + 1)
  have hdouble : (twoTo 53 : ℚ) = twoTo 52 * 2 := by rw [cast_twoTo, cast_twoTo, ← pow_succ]
  have hpower : (0 : ℚ) < 2 ^ quantum n d := by positivity
  have heven : twoTo 52 % 2 = 0 := by decide
  rw [h, hdouble] at hfloor hceil
  rw [zpow_add_one₀ two_ne_zero] at hends hhigh
  exact ⟨by linarith, by linarith, by omega⟩

/-- What a quotient rounds to is the number between whose ends it lies. -/
lemma within_of_ofRatio {negative s : Bool} {m : Nat} {q : Int} (hd : 0 < d)
    (h : ofRatio negative n d = finite s m q) : s = negative ∧ Within (n / d) m q := by
  obtain rfl | hn := Nat.eq_zero_or_pos n
  · cases h
    have hzero : ((0 : Nat) / d : ℚ) = 0 := by simp
    refine ⟨rfl, ?_, ?_, by omega⟩
    · rw [lowEnd_zero, hzero]
    · rw [hzero, highEnd]
      positivity
  rw [ofRatio_eq negative hn] at h
  split at h
  · next hcarry =>
    split at h
    · cases h
    · cases h
      exact ⟨rfl, within_of_carry hd hcarry⟩
  · split at h
    · cases h
    · cases h
      refine ⟨rfl, within_of_places hd rfl rfl fun hnarrow => ?_⟩
      obtain ⟨hm, hq, -⟩ := two_mul_lowEnd_narrow hnarrow
      -- above the least exponent the leading bit is that of the quotient
      have hexponent : floorLog2 n d = ((52 : Nat) : Int) + quantum n d := by
        have hmax : quantum n d = max (floorLog2 n d - 52) leastExponent := rfl
        omega
      rw [hm, cast_twoTo, ← zpow_natCast, ← zpow_add₀ two_ne_zero, ← hexponent]
      exact (floorLog2_spec hn hd).1

lemma Within.lt_overflow {x : ℚ} {m : Nat} {q : Int} (hx : Within x m q) (h : Canonical m q) :
    x < (twoTo 1024 - twoTo 970 : Nat) := by
  have hpos : (0 : ℚ) < 2 ^ (970 : Int) := by positivity
  have hpower : (2 : ℚ) ^ q ≤ 2 * 2 ^ (970 : Int) := by
    rw [← zpow_one_add₀ two_ne_zero]
    exact zpow_le_zpow_right₀ one_le_two h.le_greatest
  rw [cast_overflow]
  generalize (2 : ℚ) ^ (970 : Int) = unit at *
  have hend : highEnd m q ≤ (2 * m + 1) * unit := by
    have hhigh := two_mul_highEnd m q
    have hle : ((2 * m + 1) * 2 ^ q : ℚ) ≤ (2 * m + 1) * (2 * unit) := by gcongr
    linarith
  have hbits : twoTo 53 = 2 ^ 53 := rfl
  have hm := h.lt_twoTo
  rw [hbits] at hm
  -- the greatest significand is odd, so its end does not round to it
  obtain heven | hodd := Nat.mod_two_eq_zero_or_one m
  · have hless : (2 * m + 1 : ℚ) < 2 ^ 54 - 1 := by
      have hm' : m + 1 < 2 ^ 53 := by omega
      have hcast : (m + 1 : ℚ) < 2 ^ 53 := by exact_mod_cast hm'
      norm_num at hcast ⊢
      linarith
    calc x ≤ highEnd m q := hx.high
      _ ≤ (2 * m + 1) * unit := hend
      _ < (2 ^ 54 - 1) * unit := by gcongr
  · have hless : (2 * m + 1 : ℚ) ≤ 2 ^ 54 - 1 := by
      have hcast : (m + 1 : ℚ) ≤ 2 ^ 53 := by exact_mod_cast hm
      norm_num at hcast ⊢
      linarith
    calc x < highEnd m q := (hx.inside hodd).2
      _ ≤ (2 * m + 1) * unit := hend
      _ ≤ (2 ^ 54 - 1) * unit := by gcongr

/-- Below the overflow a quotient rounds to the number that is nearest to it. -/
lemma ofRatio_nearest (negative : Bool) (hd : 0 < d)
    (hn : (n / d : ℚ) < (twoTo 1024 - twoTo 970 : Nat)) :
    ∃ m q, ofRatio negative n d = finite negative m q ∧ Nearest (n / d) m q := by
  have hd' : (0 : ℚ) < d := by exact_mod_cast hd
  have hfinite : n < (twoTo 1024 - twoTo 970) * d := by
    rw [div_lt_iff₀ hd'] at hn
    exact_mod_cast hn
  obtain ⟨s, m, q, h⟩ := (ofRatio_finite_iff negative n hd).mpr hfinite
  obtain ⟨rfl, hwithin⟩ := within_of_ofRatio hd h
  have hcanonical := ofRatio_isCanonical s n hd
  rw [h] at hcanonical
  exact ⟨m, q, h, hwithin.nearest hcanonical⟩

lemma ofRatio_eq_iff (negative : Bool) {m : Nat} {q : Int} (hd : 0 < d) (h : Canonical m q) :
    ofRatio negative n d = finite negative m q ↔ Within (n / d) m q := by
  refine ⟨fun heq => (within_of_ofRatio hd heq).2, fun hwithin => ?_⟩
  obtain ⟨m', q', heq, hnearest⟩ := ofRatio_nearest negative hd (hwithin.lt_overflow h)
  obtain ⟨rfl, rfl⟩ := hnearest.unique (hwithin.nearest h)
  exact heq

end

end Binary64

end HiToolchain
