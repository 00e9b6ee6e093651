import HiToolchain.Proofs.Sequencing
import HiToolchain.Run
import Mathlib.Algebra.Order.Field.Power
import Mathlib.Data.Rat.Cast.Order
import Mathlib.Tactic.FieldSimp
import Mathlib.Tactic.Linarith
import Mathlib.Tactic.NormNum
import Mathlib.Tactic.Positivity
import Mathlib.Tactic.Ring

/-!
# Rounding to double precision

The exact result of an operation is a quotient, and rounding it yields a number of the format: at
most 53 bits, with an exponent in range. Values are compared as rationals here, where scaling up
by a power of two is multiplication. A quotient is too great for a finite number from half a unit
above the greatest one on, since this half rounds to an even significand with one bit more.
-/

namespace HiToolchain

/-! ### Scales -/

lemma cast_twoTo (n : Nat) : (twoTo n : ℚ) = 2 ^ n := by
  rw [twoTo]
  exact Nat.cast_pow 2 n

lemma cast_scaleUp (n : Nat) {e : Int} (he : 0 ≤ e) : (scaleUp n e : ℚ) = n * 2 ^ e := by
  obtain ⟨k, rfl⟩ := Int.eq_ofNat_of_zero_le he
  rw [scaleUp, Int.toNat_natCast, Nat.cast_mul, cast_twoTo, zpow_natCast]

lemma scaleUp_of_nonpos (n : Nat) {e : Int} (he : e ≤ 0) : scaleUp n e = n := by
  rw [scaleUp, Int.toNat_of_nonpos he, twoTo]
  exact Nat.mul_one n

lemma twoTo_add (a b : Nat) : twoTo (a + b) = twoTo a * twoTo b := Nat.pow_add 2 a b

lemma twoTo_pos (n : Nat) : 0 < twoTo n := Nat.pow_pos (by decide)

lemma scaleUp_pos {n : Nat} (hn : 0 < n) (e : Int) : 0 < scaleUp n e :=
  Nat.mul_pos hn (twoTo_pos _)

/-- Scaling numerator and denominator the opposite ways divides the quotient by `2 ^ q`. -/
lemma scaleUp_div_scaleUp (n d : Nat) (q : Int) :
    (scaleUp n (-q) : ℚ) / scaleUp d q = n / d / 2 ^ q := by
  obtain hq | hq := le_total 0 q
  · rw [scaleUp_of_nonpos n (by omega), cast_scaleUp d hq, div_div]
  · rw [scaleUp_of_nonpos d hq, cast_scaleUp n (by omega), zpow_neg, ← div_eq_mul_inv,
      div_right_comm]

/-! ### The exponent of the leading bit -/

lemma log2_bounds {n : Nat} (hn : 0 < n) :
    (2 : ℚ) ^ (n.log2 : Int) ≤ n ∧ (n : ℚ) < 2 ^ ((n.log2 : Int) + 1) := by
  have hlow : 2 ^ n.log2 ≤ n := Nat.log2_self_le hn.ne'
  have hhigh : n < 2 ^ (n.log2 + 1) := Nat.lt_log2_self
  constructor
  · rw [zpow_natCast]
    exact_mod_cast hlow
  · have hcast : (n : ℚ) < 2 ^ (n.log2 + 1) := by exact_mod_cast hhigh
    exact_mod_cast hcast

lemma mul_scaleUp_le_iff {n d : Nat} (hd : 0 < d) (a b : Nat) (q : Int) :
    a * scaleUp d q ≤ b * scaleUp n (-q) ↔ (a * 2 ^ q : ℚ) ≤ b * (n / d) := by
  have hscaled : (0 : ℚ) < scaleUp d q := by exact_mod_cast scaleUp_pos hd q
  have hpower : (0 : ℚ) < 2 ^ q := by positivity
  rw [← Nat.cast_le (α := ℚ), Nat.cast_mul, Nat.cast_mul, ← le_div_iff₀ hscaled, mul_div_assoc,
    scaleUp_div_scaleUp, ← mul_div_assoc, le_div_iff₀ hpower]

lemma scaleUp_le_mul_iff {n d : Nat} (hd : 0 < d) (a : Nat) (q : Int) :
    scaleUp n (-q) ≤ a * scaleUp d q ↔ (n / d : ℚ) ≤ a * 2 ^ q := by
  have hscaled : (0 : ℚ) < scaleUp d q := by exact_mod_cast scaleUp_pos hd q
  have hpower : (0 : ℚ) < 2 ^ q := by positivity
  rw [← Nat.cast_le (α := ℚ), Nat.cast_mul, ← div_le_iff₀ hscaled, scaleUp_div_scaleUp,
    div_le_iff₀ hpower]

lemma floorLog2_spec {n d : Nat} (hn : 0 < n) (hd : 0 < d) :
    (2 : ℚ) ^ floorLog2 n d ≤ n / d ∧ (n / d : ℚ) < 2 ^ (floorLog2 n d + 1) := by
  obtain ⟨hnlow, hnhigh⟩ := log2_bounds hn
  obtain ⟨hdlow, hdhigh⟩ := log2_bounds hd
  have hd' : (0 : ℚ) < d := by exact_mod_cast hd
  -- the bit lengths fix the exponent up to one
  have hlow : (2 : ℚ) ^ ((n.log2 : Int) - d.log2 - 1) ≤ n / d := by
    rw [le_div_iff₀ hd']
    calc (2 : ℚ) ^ ((n.log2 : Int) - d.log2 - 1) * d
        ≤ 2 ^ ((n.log2 : Int) - d.log2 - 1) * 2 ^ ((d.log2 : Int) + 1) := by gcongr
      _ = 2 ^ (n.log2 : Int) := by
        rw [← zpow_add₀ two_ne_zero]
        congr 1
        omega
      _ ≤ n := hnlow
  have hhigh : (n / d : ℚ) < 2 ^ ((n.log2 : Int) - d.log2 + 1) := by
    rw [div_lt_iff₀ hd']
    calc (n : ℚ) < 2 ^ ((n.log2 : Int) + 1) := hnhigh
      _ = 2 ^ ((n.log2 : Int) - d.log2 + 1) * 2 ^ (d.log2 : Int) := by
        rw [← zpow_add₀ two_ne_zero]
        congr 1
        omega
      _ ≤ 2 ^ ((n.log2 : Int) - d.log2 + 1) * d := by gcongr
  have hguess_iff : ∀ k, scaleUp d k ≤ scaleUp n (-k) ↔ (2 : ℚ) ^ k ≤ n / d := by
    intro k
    simpa using mul_scaleUp_le_iff hd 1 1 k
  unfold floorLog2
  dsimp only
  split
  · next hguess => exact ⟨(hguess_iff _).mp hguess, hhigh⟩
  · next hguess =>
    rw [hguess_iff, not_le] at hguess
    exact ⟨hlow, by rwa [sub_add_cancel]⟩

/-! ### Rounding a quotient to an integer -/

section

variable {n d : Nat}

lemma le_roundHalfEven (hd : 0 < d) {a : Nat} (h : a * d ≤ n) : a ≤ roundHalfEven n d := by
  have hfloor : a ≤ n / d := (Nat.le_div_iff_mul_le hd).mpr h
  unfold roundHalfEven
  dsimp only
  split <;> omega

lemma roundHalfEven_le (hd : 0 < d) {a : Nat} (h : n ≤ a * d) : roundHalfEven n d ≤ a := by
  unfold roundHalfEven
  dsimp only
  split
  · exact Nat.div_le_of_le_mul (by rwa [Nat.mul_comm])
  · next hround =>
    -- a quotient that is rounded up is not whole
    have hrest : 0 < n % d := by
      by_contra hzero
      have hmod : n % d = 0 := by omega
      simp [hmod, hd] at hround
    by_contra hlt
    have hbelow : a * d ≤ n / d * d := Nat.mul_le_mul_right d (by omega)
    have hsplit := Nat.div_add_mod' n d
    omega

/-- An even number is reached from half a unit below on. -/
lemma even_le_roundHalfEven_iff (hd : 0 < d) {a : Nat} (ha : 0 < a) (heven : a % 2 = 0) :
    a ≤ roundHalfEven n d ↔ (2 * a - 1) * d ≤ 2 * n := by
  have hsplit := Nat.div_add_mod' n d
  have hmod := Nat.mod_lt n hd
  unfold roundHalfEven
  dsimp only
  generalize hf : n / d = f at *
  generalize n % d = r at *
  obtain hlt | rfl | hgt : f + 1 < a ∨ f + 1 = a ∨ a ≤ f := by omega
  · have hno : ¬ (2 * a - 1) * d ≤ 2 * n := by
      have hle : (2 * f + 3) * d ≤ (2 * a - 1) * d := Nat.mul_le_mul_right d (by omega)
      have hexpand : (2 * f + 3) * d = 2 * (f * d) + 3 * d := by ring
      omega
    refine iff_of_false ?_ hno
    split <;> omega
  · have hexpand : (2 * (f + 1) - 1) * d = 2 * (f * d) + d := by
      have hpred : 2 * (f + 1) - 1 = 2 * f + 1 := by omega
      rw [hpred]
      ring
    rw [hexpand]
    split
    · next hround =>
      simp only [Bool.or_eq_true, Bool.and_eq_true, decide_eq_true_eq, beq_iff_eq] at hround
      omega
    · next hround =>
      simp only [Bool.or_eq_true, Bool.and_eq_true, decide_eq_true_eq, beq_iff_eq] at hround
      omega
  · have hyes : (2 * a - 1) * d ≤ 2 * n := by
      have hle : (2 * a - 1) * d ≤ 2 * f * d := Nat.mul_le_mul_right d (by omega)
      have hexpand : 2 * f * d = 2 * (f * d) := by ring
      omega
    refine iff_of_true ?_ hyes
    split <;> omega

end

/-! ### Rounding a quotient to a number -/

namespace Binary64

/-- The exponent of the last place to which a quotient is rounded. -/
def quantum (n d : Nat) : Int := max (floorLog2 n d - 52) leastExponent

/-- A quotient as a whole number of last places. -/
def places (n d : Nat) : Nat :=
  roundHalfEven (scaleUp n (-quantum n d)) (scaleUp d (quantum n d))

section

variable {n d : Nat}

lemma ofRatio_eq (negative : Bool) (hn : 0 < n) :
    ofRatio negative n d =
      if places n d = twoTo 53 then
        if greatestExponent < quantum n d + 1 then infinity negative
        else finite negative (twoTo 52) (quantum n d + 1)
      else if greatestExponent < quantum n d then infinity negative
      else finite negative (places n d) (quantum n d) := by
  unfold ofRatio places quantum
  rw [if_neg hn.ne']
  dsimp only
  split <;> rfl

lemma le_places (hd : 0 < d) {a : Nat} (h : (a * 2 ^ quantum n d : ℚ) ≤ n / d) :
    a ≤ places n d := by
  apply le_roundHalfEven (scaleUp_pos hd _)
  have hscaled := (mul_scaleUp_le_iff (n := n) hd a 1 (quantum n d)).mpr (by simpa using h)
  simpa using hscaled

lemma places_le (hd : 0 < d) {a : Nat} (h : (n / d : ℚ) ≤ a * 2 ^ quantum n d) :
    places n d ≤ a :=
  roundHalfEven_le (scaleUp_pos hd _) ((scaleUp_le_mul_iff hd a _).mpr h)

lemma even_le_places_iff (hd : 0 < d) {a : Nat} (ha : 0 < a) (heven : a % 2 = 0) :
    a ≤ places n d ↔ ((2 * a - 1) * 2 ^ quantum n d : ℚ) ≤ 2 * (n / d) := by
  rw [places, even_le_roundHalfEven_iff (scaleUp_pos hd _) ha heven, mul_scaleUp_le_iff hd]
  have hcast : ((2 * a - 1 : Nat) : ℚ) = 2 * a - 1 := by
    rw [Nat.cast_sub (by omega)]
    push_cast
    rfl
  rw [hcast, Nat.cast_ofNat]

lemma places_le_twoTo (hn : 0 < n) (hd : 0 < d) : places n d ≤ twoTo 53 := by
  apply places_le hd
  rw [cast_twoTo, ← zpow_natCast, ← zpow_add₀ two_ne_zero]
  refine (floorLog2_spec hn hd).2.le.trans (zpow_le_zpow_right₀ one_le_two ?_)
  have hquantum : floorLog2 n d - 52 ≤ quantum n d := le_max_left _ _
  push_cast
  omega

lemma twoTo_le_places (hn : 0 < n) (hd : 0 < d) :
    twoTo 52 ≤ places n d ∨ quantum n d = leastExponent := by
  obtain hle | hlt := le_or_gt (floorLog2 n d - 52) leastExponent
  · exact .inr (max_eq_right hle)
  · left
    apply le_places hd
    have hquantum : quantum n d = floorLog2 n d - 52 := max_eq_left hlt.le
    rw [cast_twoTo, ← zpow_natCast, ← zpow_add₀ two_ne_zero, hquantum]
    have hexponent : ((52 : Nat) : Int) + (floorLog2 n d - 52) = floorLog2 n d := by omega
    rw [hexponent]
    exact (floorLog2_spec hn hd).1

end

/-- The significands and exponents of the format. -/
structure Canonical (m : Nat) (q : Int) : Prop where
  lt_twoTo : m < twoTo 53
  least_le : leastExponent ≤ q
  le_greatest : q ≤ greatestExponent
  leading : twoTo 52 ≤ m ∨ q = leastExponent

def IsCanonical : Binary64 → Prop
  | finite _ m q => Canonical m q
  | _ => True

lemma isCanonical_zero (negative : Bool) : (zero negative).IsCanonical :=
  ⟨twoTo_pos 53, le_rfl, by decide, .inr rfl⟩

lemma ofRatio_isCanonical (negative : Bool) (n : Nat) {d : Nat} (hd : 0 < d) :
    (ofRatio negative n d).IsCanonical := by
  obtain rfl | hn := Nat.eq_zero_or_pos n
  · exact isCanonical_zero negative
  · have hle := places_le_twoTo hn hd
    have hleast : leastExponent ≤ quantum n d := le_max_right _ _
    rw [ofRatio_eq negative hn]
    split
    · split
      · trivial
      · next hgreatest => exact ⟨by decide, by omega, by omega, .inl le_rfl⟩
    · next hplaces =>
      split
      · trivial
      · next hgreatest => exact ⟨by omega, hleast, by omega, twoTo_le_places hn hd⟩

lemma ofRatio_finite_iff_quantum (negative : Bool) {n d : Nat} (hn : 0 < n) :
    (∃ s m q, ofRatio negative n d = finite s m q) ↔
      quantum n d < greatestExponent ∨
        quantum n d = greatestExponent ∧ places n d ≠ twoTo 53 := by
  rw [ofRatio_eq negative hn]
  split
  · split
    · exact iff_of_false (fun ⟨_, _, _, h⟩ => nomatch h) (by omega)
    · exact iff_of_true ⟨_, _, _, rfl⟩ (by omega)
  · split
    · exact iff_of_false (fun ⟨_, _, _, h⟩ => nomatch h) (by omega)
    · exact iff_of_true ⟨_, _, _, rfl⟩ (by omega)

lemma cast_overflow :
    ((twoTo 1024 - twoTo 970 : Nat) : ℚ) = (2 ^ 54 - 1) * 2 ^ (970 : Int) := by
  have hsplit : twoTo 1024 - twoTo 970 = (twoTo 54 - 1) * twoTo 970 := by
    rw [twoTo_add 54 970, Nat.sub_mul, Nat.one_mul]
  rw [hsplit, Nat.cast_mul, Nat.cast_sub (twoTo_pos 54), cast_twoTo, cast_twoTo, Nat.cast_one]
  exact congrArg _ (zpow_natCast (2 : ℚ) 970).symm

/-- A quotient rounds to a finite number below half a unit above the greatest one. -/
lemma ofRatio_finite_iff (negative : Bool) (n : Nat) {d : Nat} (hd : 0 < d) :
    (∃ s m q, ofRatio negative n d = finite s m q) ↔
      n < (twoTo 1024 - twoTo 970) * d := by
  have hd' : (0 : ℚ) < d := by exact_mod_cast hd
  have hcast : n < (twoTo 1024 - twoTo 970) * d ↔
      (n / d : ℚ) < (2 ^ 54 - 1) * 2 ^ (970 : Int) := by
    rw [← Nat.cast_lt (α := ℚ), Nat.cast_mul, cast_overflow, div_lt_iff₀ hd']
  -- the powers that occur are small multiples of one that is left as it is
  have hpower : ∀ j : Nat, (2 : ℚ) ^ (970 + j : Int) = 2 ^ j * 2 ^ (970 : Int) := by
    intro j
    rw [zpow_add₀ two_ne_zero, zpow_natCast, mul_comm]
  have hpos : (0 : ℚ) < 2 ^ (970 : Int) := by positivity
  rw [hcast]
  obtain rfl | hn := Nat.eq_zero_or_pos n
  · refine iff_of_true ⟨negative, 0, leastExponent, rfl⟩ ?_
    rw [Nat.cast_zero, zero_div]
    exact mul_pos (by norm_num) hpos
  rw [ofRatio_finite_iff_quantum negative hn]
  obtain ⟨hlow, hhigh⟩ := floorLog2_spec hn hd
  have hquantum : quantum n d = max (floorLog2 n d - 52) (-1074) := rfl
  have hgreatest : greatestExponent = 971 := rfl
  obtain hbelow | hlast | habove : floorLog2 n d + 1 ≤ 970 + (53 : Nat) ∨
      floorLog2 n d = 1023 ∨ 970 + (54 : Nat) ≤ floorLog2 n d := by omega
  · refine iff_of_true (by omega) (hhigh.trans_le ?_)
    refine (zpow_le_zpow_right₀ one_le_two hbelow).trans ?_
    rw [hpower]
    exact mul_le_mul_of_nonneg_right (by norm_num) hpos.le
  · -- only the significand decides: it may round up to one bit more
    have hplaces : places n d ≠ twoTo 53 ↔ ¬ twoTo 53 ≤ places n d := by
      have hle := places_le_twoTo hn hd
      omega
    have hexponent : quantum n d = 970 + (1 : Nat) := by omega
    rw [hplaces, even_le_places_iff hd (twoTo_pos 53) (by decide), hexponent, cast_twoTo, hpower,
      not_le, hgreatest]
    constructor
    · rintro (h | ⟨-, h⟩)
      · omega
      · linarith
    · intro h
      exact .inr ⟨rfl, by linarith⟩
  · refine iff_of_false (by omega) (not_lt.mpr (le_trans ?_ hlow))
    refine le_trans ?_ (zpow_le_zpow_right₀ one_le_two habove)
    rw [hpower]
    exact mul_le_mul_of_nonneg_right (by norm_num) hpos.le

/-! ### Operations yield numbers of the format -/

lemma ofScaled_isCanonical (negative : Bool) (n : Nat) (e : Int) :
    (ofScaled negative n e).IsCanonical :=
  ofRatio_isCanonical negative _ (scaleUp_pos Nat.one_pos _)

lemma one_isCanonical : one.IsCanonical := ⟨by decide, by decide, by decide, .inl le_rfl⟩

lemma add_isCanonical (x y : Binary64) : (x.add y).IsCanonical := by
  unfold add
  split
  · trivial
  · trivial
  · split <;> trivial
  · trivial
  · trivial
  · dsimp only
    split
    · exact isCanonical_zero _
    · exact ofScaled_isCanonical _ _ _

lemma mul_isCanonical (x y : Binary64) : (x.mul y).IsCanonical := by
  unfold mul
  split
  · trivial
  · trivial
  · split <;> trivial
  · split <;> trivial
  · exact ofScaled_isCanonical _ _ _

lemma div_isCanonical (x y : Binary64) : (x.div y).IsCanonical := by
  unfold div
  split
  · trivial
  · trivial
  · trivial
  · trivial
  · exact isCanonical_zero _
  · split
    · split <;> trivial
    · next hn => exact ofRatio_isCanonical _ _ (scaleUp_pos (Nat.pos_of_ne_zero hn) _)

lemma sqrt_isCanonical (x : Binary64) : x.sqrt.IsCanonical := by
  unfold sqrt
  split
  · trivial
  · split <;> trivial
  · split
    · exact isCanonical_zero _
    · split
      · trivial
      · exact ofScaled_isCanonical _ _ _

lemma powHuge_isCanonical (x : Binary64) (negative : Bool) : (powHuge x negative).IsCanonical := by
  unfold powHuge
  split
  · exact one_isCanonical
  · split
    · exact isCanonical_zero _
    · trivial

lemma scale_isCanonical (x : Binary64) (e : Int) : (x.scale e).IsCanonical := by
  cases x with
  | nan | infinity => trivial
  | finite s m q => exact ofScaled_isCanonical _ _ _

lemma powZero_isCanonical (negative : Bool) (y : Binary64) :
    (powZero negative y).IsCanonical := by
  unfold powZero
  dsimp only
  split
  · trivial
  · exact isCanonical_zero _

lemma powFinite_isCanonical [Elementary] (s : Bool) (m : Nat) (q : Int) (t : Bool) (n : Nat)
    (r : Int) : (powFinite s m q t n r).IsCanonical := by
  unfold powFinite
  generalize wholePart n r = whole
  generalize fractionPart n r = rest
  dsimp only
  split
  · trivial
  · split
    · exact powHuge_isCanonical _ _
    · split <;> exact scale_isCanonical _ _

lemma pow_isCanonical [Elementary] {x : Binary64} (hx : x.IsCanonical) (y : Binary64) :
    (x.pow y).IsCanonical := by
  unfold pow
  split
  · exact one_isCanonical
  · split
    · exact hx
    · split
      · trivial
      · trivial
      · exact powZero_isCanonical _ _
      · exact powHuge_isCanonical _ _
      · split
        · exact powZero_isCanonical _ _
        · split
          · exact isCanonical_zero _
          · trivial
      · split
        · exact sqrt_isCanonical _
        · split
          · exact div_isCanonical _ _
          · exact powFinite_isCanonical _ _ _ _ _ _

/-! ### Whole numbers -/

lemma floorLog2_whole {n : Nat} (hpos : 0 < n) (hn : n < twoTo 53) :
    0 ≤ floorLog2 n 1 ∧ floorLog2 n 1 ≤ 52 := by
  obtain ⟨hlow, hhigh⟩ := floorLog2_spec hpos Nat.one_pos
  rw [Nat.cast_one, div_one] at hlow hhigh
  have hge : (2 : ℚ) ^ (0 : Int) ≤ n := by
    rw [zpow_zero]
    exact_mod_cast hpos
  have hlt : (n : ℚ) < 2 ^ ((53 : Nat) : Int) := by
    rw [zpow_natCast, ← cast_twoTo]
    exact_mod_cast hn
  have hbelow := (zpow_lt_zpow_iff_right₀ one_lt_two).mp (hge.trans_lt hhigh)
  have habove := (zpow_lt_zpow_iff_right₀ one_lt_two).mp (hlow.trans_lt hlt)
  omega

/-- Naturals of at most 53 bits are numbers of the format. -/
lemma ofRatio_whole (negative : Bool) {n : Nat} (hn : n < twoTo 53) :
    ∃ m q, ofRatio negative n 1 = finite negative m q ∧ (m * 2 ^ q : ℚ) = n := by
  obtain rfl | hpos := Nat.eq_zero_or_pos n
  · exact ⟨0, leastExponent, rfl, by rw [Nat.cast_zero, zero_mul]⟩
  obtain ⟨hnonneg, hle⟩ := floorLog2_whole hpos hn
  obtain ⟨k, hk⟩ : ∃ k : Nat, 52 - floorLog2 n 1 = k := ⟨(52 - floorLog2 n 1).toNat, by omega⟩
  have hquantum : quantum n 1 = -k := by
    have hmax : quantum n 1 = max (floorLog2 n 1 - 52) (-1074) := rfl
    omega
  -- the quotient is a whole number of last places, so nothing is rounded away
  have hexact : ((n * twoTo k : Nat) * 2 ^ quantum n 1 : ℚ) = n / (1 : Nat) := by
    rw [hquantum, Nat.cast_mul, cast_twoTo, zpow_neg, zpow_natCast, Nat.cast_one, div_one,
      mul_inv_cancel_right₀ (by positivity)]
  have hplaces : places n 1 = n * twoTo k :=
    Nat.le_antisymm (places_le Nat.one_pos hexact.ge) (le_places Nat.one_pos hexact.le)
  have hfits : n * twoTo k < twoTo 53 := by
    have hhigh := (floorLog2_spec hpos Nat.one_pos).2
    rw [Nat.cast_one, div_one] at hhigh
    have hcast : ((n * twoTo k : Nat) : ℚ) < twoTo 53 := by
      rw [Nat.cast_mul, cast_twoTo, cast_twoTo]
      calc (n : ℚ) * 2 ^ k < 2 ^ (floorLog2 n 1 + 1) * 2 ^ k := by gcongr
        _ = 2 ^ 53 := by
          rw [← zpow_natCast, ← zpow_natCast, ← zpow_add₀ two_ne_zero]
          congr 1
          omega
    exact_mod_cast hcast
  refine ⟨places n 1, quantum n 1, ?_, ?_⟩
  · rw [ofRatio_eq negative hpos, if_neg (by omega), if_neg]
    rw [hquantum, greatestExponent]
    omega
  · rw [hplaces, hexact, Nat.cast_one, div_one]

/-- A magnitude with its sign. -/
def ofSigned (negative : Bool) (x : ℚ) : ℚ := if negative then -x else x

lemma cast_units (negative : Bool) (m : Nat) {q e : Int} (h : e ≤ q) :
    (units negative m q e : ℚ) = ofSigned negative (m * 2 ^ q) / 2 ^ e := by
  have hscale : (scaleUp m (q - e) : ℚ) = m * 2 ^ q / 2 ^ e := by
    rw [cast_scaleUp m (by omega), zpow_sub₀ two_ne_zero, mul_div_assoc]
  unfold units ofSigned
  cases negative with
  | false =>
    rw [if_neg (by decide), if_neg (by decide), ← hscale]
    exact Int.cast_natCast _
  | true =>
    rw [if_pos rfl, if_pos rfl, neg_div, ← hscale, Int.cast_neg, Int.cast_natCast]

section

variable {s t : Bool} {m n : Nat} {q r : Int}

lemma same_finite_iff : (finite s m q).same (finite t n r) ↔
    ofSigned s (m * 2 ^ q) = ofSigned t (n * 2 ^ r) := by
  have hpower : (2 : ℚ) ^ min q r ≠ 0 := by positivity
  rw [same, beq_iff_eq, ← Int.cast_inj (α := ℚ), cast_units s m (min_le_left q r),
    cast_units t n (min_le_right q r), div_left_inj' hpower]

lemma lt_finite_iff : (finite s m q).lt (finite t n r) ↔
    ofSigned s (m * 2 ^ q) < ofSigned t (n * 2 ^ r) := by
  have hpower : (0 : ℚ) < 2 ^ min q r := by positivity
  rw [lt, decide_eq_true_eq, ← Int.cast_lt (R := ℚ), cast_units s m (min_le_left q r),
    cast_units t n (min_le_right q r), div_lt_div_iff_of_pos_right hpower]

end

end Binary64

/-! ### Values of expressions -/

lemma Literal.value?_isCanonical {digits : String} {v : Binary64}
    (h : Literal.value? digits = some v) : v.IsCanonical := by
  unfold Literal.value? at h
  split at h
  · have hcanonical := Binary64.ofRatio_isCanonical false (digitsValue digits.toList)
      Nat.one_pos
    split at h
    · next hvalue =>
      cases h
      rw [← hvalue]
      exact hcanonical
    · cases h
  · cases h

lemma operation?_isCanonical [Elementary] {op : TokenKind} {f : Binary64 → Binary64 → Binary64}
    (h : op.operation? = some f) {x : Binary64} (hx : x.IsCanonical) (y : Binary64) :
    (f x y).IsCanonical := by
  unfold TokenKind.operation? at h
  split at h <;> cases h
  · exact Binary64.add_isCanonical x y
  · exact Binary64.add_isCanonical x y.neg
  · exact Binary64.mul_isCanonical x y
  · exact Binary64.div_isCanonical x y
  · exact Binary64.pow_isCanonical hx y

/-- Whatever an expression evaluates to is a number of the format. -/
lemma Expr.eval_isCanonical [Elementary] {e : Expr} {v : Binary64} (h : e.eval = .ok v) :
    v.IsCanonical := by
  induction e generalizing v with
  | number span digits =>
    rw [Expr.eval, Literal.value] at h
    cases hvalue : Literal.value? digits with
    | none =>
      rw [hvalue] at h
      cases h
    | some w =>
      rw [hvalue] at h
      cases h
      exact Literal.value?_isCanonical hvalue
  | binary span op left right ihleft ihright =>
    rw [Expr.eval] at h
    obtain ⟨x, hx, h⟩ := bind_eq_ok.mp h
    obtain ⟨y, -, h⟩ := bind_eq_ok.mp h
    cases hop : op.operation? with
    | none =>
      rw [hop] at h
      cases h
    | some f =>
      rw [hop] at h
      cases h
      exact operation?_isCanonical hop (ihleft hx) y
  | foreign span node => cases h

end HiToolchain
