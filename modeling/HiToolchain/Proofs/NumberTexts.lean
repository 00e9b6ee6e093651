import HiToolchain.Proofs.DecimalReading
import HiToolchain.Proofs.PrintedWholes

/-!
# Numbers and their texts

The text of a number is read back as a decimal that rounds to the number, whichever notation it
has, and no decimal with fewer digits does. So different numbers have different texts. The texts of
the infinities are different from these, since they are not in decimal notation.
-/

namespace HiToolchain

open Binary64 (Canonical Nearest Within)

/-! ### Interchange words -/

namespace Binary64

lemma ofBits_isCanonical (word : Nat) : (ofBits word).IsCanonical := by
  have hfraction : word % twoTo 52 < twoTo 52 := Nat.mod_lt _ (twoTo_pos 52)
  have hbiased : word / twoTo 52 % twoTo 11 < twoTo 11 := Nat.mod_lt _ (twoTo_pos 11)
  have hdouble : twoTo 53 = 2 * twoTo 52 := by decide
  have helevens : twoTo 11 = 2048 := by decide
  unfold ofBits
  dsimp only
  split
  · split <;> trivial
  · split
    · exact ⟨by omega, le_rfl, by decide, .inr rfl⟩
    · exact ⟨by omega, by unfold leastExponent; omega, by unfold greatestExponent; omega,
        .inl (Nat.le_add_right _ _)⟩

lemma toBits_ofBits {word : Nat} (hword : word < twoTo 64) (h : ofBits word ≠ nan) :
    (ofBits word).toBits = word := by
  have h11 : twoTo 11 = 2048 := by decide
  have h52 : twoTo 52 = 4503599627370496 := by decide
  have h63 : twoTo 63 = 9223372036854775808 := by decide
  have h64 : twoTo 64 = 18446744073709551616 := by decide
  have hsign : (word / twoTo 63 % 2 == 1).toNat = word / twoTo 63 := by
    obtain hzero | hone : word / twoTo 63 = 0 ∨ word / twoTo 63 = 1 := by
      rw [h63]
      omega
    · rw [hzero]
      rfl
    · rw [hone]
      rfl
  have hfields : word / twoTo 63 * twoTo 63 + word / twoTo 52 % twoTo 11 * twoTo 52 +
      word % twoTo 52 = word := by
    rw [h11, h52, h63]
    omega
  have hfraction : word % twoTo 52 < twoTo 52 := Nat.mod_lt _ (twoTo_pos 52)
  unfold ofBits at h ⊢
  dsimp only at h ⊢
  split at h
  · next hbiased =>
    rw [if_pos hbiased]
    split at h
    · next hzero =>
      rw [hbiased, hzero, Nat.add_zero] at hfields
      rw [if_pos hzero, toBits, hsign]
      exact hfields
    · exact absurd rfl h
  · next hbiased =>
    rw [if_neg hbiased]
    split
    · next hzero =>
      rw [hzero, Nat.zero_mul, Nat.add_zero] at hfields
      rw [toBits, if_pos hfraction, hsign]
      exact hfields
    · have hexponent : (((word / twoTo 52 % twoTo 11 : Nat) : Int) - 1075 + 1075).toNat =
          word / twoTo 52 % twoTo 11 := by omega
      rw [toBits, if_neg (by omega), hsign, hexponent, Nat.add_sub_cancel_left]
      exact hfields

end Binary64

/-! ### Reading texts back -/

lemma readUnsigned?_minus (cs : List Char) : readUnsigned? ('-' :: cs) = none := by
  have hnat : ∀ cs, readNat? ('-' :: cs) = none := fun cs => by simp [readNat?]
  have hdigits : ∀ cs, readDigits? ('-' :: cs) = none := by
    intro cs
    have hwhole : ('-' :: cs).takeWhile (· ≠ '.') = '-' :: cs.takeWhile (· ≠ '.') := by simp
    rw [readDigits?, hwhole]
    split <;> simp [hnat]
  have htake : ('-' :: cs).takeWhile (· ≠ 'e') = '-' :: cs.takeWhile (· ≠ 'e') := by simp
  rw [readUnsigned?, htake, hdigits]
  rfl

lemma readNumber?_signedText {text : String} {d : Decimal} (h : readUnsigned? text.toList = some d)
    (negative : Bool) : readNumber? (signedText negative text) = some (negative, d) := by
  cases negative with
  | true =>
    have htext : (signedText true text).toList = '-' :: text.toList := by
      rw [signedText, String.toList_append]
      rfl
    rw [readNumber?, htext]
    simp [h]
  | false =>
    have htext : (signedText false text).toList = text.toList := by
      rw [signedText, String.toList_append]
      rfl
    rw [readNumber?, htext]
    split
    · next cs hcs =>
      rw [hcs, readUnsigned?_minus] at h
      cases h
    · rw [h]
      rfl

namespace Binary64

lemma text_eq_signedText (negative : Bool) (m : Nat) (q : Int) :
    (finite negative m q).text = signedText negative
      (if (finite negative m q).isPositional then (Decimal.shortest m q).positional
        else (Decimal.shortest m q).written generalStyle) :=
  text_finite negative m q

/-- A finite number is read back as its shortest decimal, with zeros up to the point where it is
written without an exponent. -/
lemma text_reads_back (negative : Bool) (m : Nat) (q : Int) :
    ∃ k, readNumber? (finite negative m q).text =
      some (negative, (Decimal.shortest m q).shifted k) := by
  obtain ⟨k, hk⟩ : ∃ k, readUnsigned?
      (if (finite negative m q).isPositional then (Decimal.shortest m q).positional
        else (Decimal.shortest m q).written generalStyle).toList =
      some ((Decimal.shortest m q).shifted k) := by
    split
    · exact ⟨_, Decimal.positional_reads_back _⟩
    · exact Decimal.written_reads_back _ _
  exact ⟨k, text_eq_signedText negative m q ▸ readNumber?_signedText hk negative⟩

lemma readNumber?_infinity (negative : Bool) : readNumber? (infinity negative).text = none := by
  cases negative <;> decide

end Binary64

namespace Decimal

section

variable {m : Nat} {q : Int}

/-- The shortest decimal rounds to the number, and no decimal with fewer significant digits does. -/
lemma shortest_fewest (h : Canonical m q) (negative : Bool) (k : Nat) :
    Within ((shortest m q).shifted k).value m q ∧
      ∀ d : Decimal, d.round negative = .finite negative m q →
        ((shortest m q).shifted k).significantDigits ≤ d.significantDigits := by
  obtain rfl | hm := Nat.eq_zero_or_pos m
  · have hzero : (shortest 0 q).shifted k = ⟨0, 0 - k⟩ := by
      rw [shortest, if_pos rfl, shifted, Nat.zero_mul]
    have hnone : significantDigits ⟨0, 0 - k⟩ = 0 := by
      simp [significantDigits, digitChars, List.rdropWhile]
    have hvalue : value ⟨0, 0 - k⟩ = 0 := by simp [value]
    rw [hzero, hnone, hvalue]
    refine ⟨⟨?_, ?_, by omega⟩, fun d _ => Nat.zero_le _⟩
    · rw [Binary64.lowEnd_zero]
    · rw [Binary64.highEnd]
      positivity
  · obtain ⟨hshortest, hdigit, -⟩ := shortest_spec h hm
    rw [shifted_value, significantDigits_shifted hdigit]
    refine ⟨(round_eq_iff h false _).mp hshortest.rounds, fun d hd => ?_⟩
    have hwithin := (round_eq_iff h negative d).mp hd
    have hpos := digits_pos_of_within hm hwithin
    obtain ⟨l, d', hdigit', rfl⟩ := exists_shifted hpos.ne'
    rw [shifted_value] at hwithin
    rw [significantDigits_shifted hdigit']
    exact hshortest.fewest d' ((round_eq_iff h false d').mpr hwithin)

end

end Decimal

/-- The text of a finite number is read back as a decimal that rounds to the number. -/
lemma Binary64.text_rounds_back {m : Nat} {q : Int} (h : Canonical m q) (negative : Bool) :
    ∃ d : Decimal, readNumber? (finite negative m q).text = some (negative, d) ∧
      Nearest d.value m q ∧ d.round negative = finite negative m q ∧
      ∀ d' : Decimal, d'.round negative = finite negative m q →
        d.significantDigits ≤ d'.significantDigits := by
  obtain ⟨k, hread⟩ := text_reads_back negative m q
  obtain ⟨hwithin, hfewest⟩ := Decimal.shortest_fewest h negative k
  have hround := (Decimal.round_eq_iff h negative _).mpr hwithin
  exact ⟨_, hread, hwithin.nearest h, hround, hfewest⟩

lemma Binary64.eq_of_text_eq {v v' : Binary64} (hv : v.IsCanonical) (hv' : v'.IsCanonical)
    (hnan : v ≠ nan) (hnan' : v' ≠ nan) (h : v.text = v'.text) : v = v' := by
  cases v with
  | nan => exact absurd rfl hnan
  | infinity negative =>
    cases v' with
    | nan => exact absurd rfl hnan'
    | infinity negative' =>
      cases negative <;> cases negative' <;> first | rfl | exact absurd h (by decide)
    | finite negative' m' q' =>
      obtain ⟨d, hread, -⟩ := text_rounds_back hv' negative'
      rw [← h, readNumber?_infinity] at hread
      cases hread
  | finite negative m q =>
    obtain ⟨d, hread, -, hround, -⟩ := text_rounds_back hv negative
    cases v' with
    | nan => exact absurd rfl hnan'
    | infinity negative' =>
      rw [h, readNumber?_infinity] at hread
      cases hread
    | finite negative' m' q' =>
      obtain ⟨d', hread', -, hround', -⟩ := text_rounds_back hv' negative'
      rw [h, hread'] at hread
      cases hread
      rw [← hround, ← hround']

/-- Every word of a finite number has a text that is read back as a decimal to which the number is
nearest, so that the decimal rounds to the number and the word is known again. No decimal with fewer
significant digits rounds to the number. Words that are not a NaN have different texts. -/
theorem text_identifies_number :
    (∀ (word : Nat) (negative : Bool) (m : Nat) (q : Int), word < twoTo 64 →
      Binary64.ofBits word = .finite negative m q →
      ∃ d : Decimal, readNumber? (Binary64.ofBits word).text = some (negative, d) ∧
        Nearest d.value m q ∧ d.round negative = .finite negative m q ∧
        (d.round negative).toBits = word ∧
        ∀ d' : Decimal, d'.round negative = .finite negative m q →
          d.significantDigits ≤ d'.significantDigits) ∧
    ∀ word word' : Nat, word < twoTo 64 → word' < twoTo 64 → Binary64.ofBits word ≠ .nan →
      Binary64.ofBits word' ≠ .nan →
      (Binary64.ofBits word).text = (Binary64.ofBits word').text → word = word' := by
  constructor
  · intro word negative m q hword h
    have hcanonical : Canonical m q := by
      have hbits := Binary64.ofBits_isCanonical word
      rwa [h] at hbits
    obtain ⟨d, hread, hnearest, hround, hfewest⟩ := Binary64.text_rounds_back hcanonical negative
    refine ⟨d, h ▸ hread, hnearest, hround, ?_, hfewest⟩
    rw [hround, ← h]
    exact Binary64.toBits_ofBits hword (by simp [h])
  · intro word word' hword hword' hnan hnan' htext
    have heq := Binary64.eq_of_text_eq (Binary64.ofBits_isCanonical word)
      (Binary64.ofBits_isCanonical word') hnan hnan' htext
    rw [← Binary64.toBits_ofBits hword hnan, heq, Binary64.toBits_ofBits hword' hnan']

-- The least positive number: a single digit tells it from its neighbours.
example : (Binary64.ofBits 1).text = "5e-324" ∧
    readNumber? "5e-324" = some (false, ⟨5, -324⟩) := by
  decide +kernel

end HiToolchain
