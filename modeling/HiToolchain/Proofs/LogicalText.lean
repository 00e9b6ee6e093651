import HiToolchain.Proofs.Scanning
import Mathlib.Algebra.GroupWithZero.Nat
import Mathlib.Data.List.Induction

/-!
# Logical characters and their positions

A text with its line endings made uniform has fewer characters than the text itself, so a place
can be told in two ways: by the number of logical characters before it, or by the offset of the
last raw character read. `Position.ofIndex` gives the position that belongs to an index, and a
walk forward reaches these positions and no others.
-/

namespace HiToolchain

/-- Every CRLF as one line feed. -/
def joinPairs : List Char → List Char
  | [] => []
  | '\r' :: '\n' :: rest => '\n' :: joinPairs rest
  | c :: rest => c :: joinPairs rest

/-- Every CRLF, and every carriage return that then remains, as one line feed. -/
def uniform (raw : List Char) : List Char :=
  (joinPairs raw).map fun c => if c = '\r' then '\n' else c

/-- A raw offset in the middle of a CRLF. -/
def SplitsPair (raw : List Char) (i : Nat) : Prop :=
  raw[i]? = some '\r' ∧ raw[i + 1]? = some '\n'

instance (raw : List Char) (i : Nat) : Decidable (SplitsPair raw i) :=
  inferInstanceAs (Decidable (_ ∧ _))

/-- The offsets at which the logical characters end, in order. -/
def ends (raw : List Char) : List Nat :=
  (List.range raw.length).filter fun i => ¬SplitsPair raw i

/-- The position after the first `k` logical characters. -/
def Position.ofIndex (raw : List Char) (k : Nat) : Position where
  offset := ((ends raw).take k).getLast?.elim (-1) Nat.cast
  line := 1 + ((uniform raw).take k).count '\n'
  column := (((uniform raw).take k).reverse.takeWhile (· ≠ '\n')).length

/-! ### Uniform text -/

/-- Induction over logical characters: a text starts with a CRLF or with one raw character that
is a logical one. -/
@[elab_as_elim]
lemma logical_induction {motive : List Char → Prop} (nil : motive [])
    (pair : ∀ rest, motive rest → motive ('\r' :: '\n' :: rest))
    (single : ∀ c rest, ¬(c = '\r' ∧ rest.head? = some '\n') → motive rest → motive (c :: rest))
    (raw : List Char) : motive raw := by
  induction raw using joinPairs.induct with
  | case1 => exact nil
  | case2 rest ih => exact pair rest ih
  | case3 c rest hpair ih =>
    refine single c rest ?_ ih
    rintro ⟨rfl, hfeed⟩
    obtain ⟨after, rfl⟩ := List.head?_eq_some_iff.mp hfeed
    exact hpair after rfl rfl

section

variable {c : Char} {rest : List Char} (h : ¬(c = '\r' ∧ rest.head? = some '\n'))

include h

lemma ofChars_single :
    Glyph.ofChars (c :: rest) = ⟨if c = '\r' then '\n' else c, 1⟩ :: Glyph.ofChars rest := by
  have hpair : ∀ after, c = '\r' → rest = '\n' :: after → False := by
    rintro after rfl rfl
    exact h ⟨rfl, rfl⟩
  by_cases hc : c = '\r'
  · subst hc
    rw [Glyph.ofChars]
    · simp
    · exact fun after => hpair after rfl
  · rw [Glyph.ofChars]
    · simp [hc]
    · exact hpair
    · exact hc

lemma joinPairs_single : joinPairs (c :: rest) = c :: joinPairs rest := by
  rw [joinPairs]
  rintro after rfl rfl
  exact h ⟨rfl, rfl⟩

lemma uniform_single : uniform (c :: rest) = (if c = '\r' then '\n' else c) :: uniform rest := by
  rw [uniform, joinPairs_single h, List.map_cons, uniform]

end

lemma uniform_pair (rest : List Char) : uniform ('\r' :: '\n' :: rest) = '\n' :: uniform rest := by
  simp [uniform, joinPairs]

lemma map_char_ofChars (raw : List Char) : (Glyph.ofChars raw).map Glyph.char = uniform raw := by
  unfold uniform
  induction raw using logical_induction with
  | nil => rfl
  | pair rest ih => simp [Glyph.ofChars, joinPairs, ih]
  | single c rest h ih => simp [ofChars_single h, joinPairs_single h, ih]

lemma length_ofChars (raw : List Char) : (Glyph.ofChars raw).length = (uniform raw).length := by
  rw [← map_char_ofChars, List.length_map]

lemma return_notMem_uniform (raw : List Char) : '\r' ∉ uniform raw := by
  unfold uniform
  intro h
  obtain ⟨c, -, hc⟩ := List.mem_map.mp h
  split at hc
  · cases hc
  · next hne => exact hne hc

lemma uniform_eq_self {raw : List Char} (h : '\r' ∉ raw) : uniform raw = raw := by
  rw [← map_char_ofChars]
  induction raw using logical_induction with
  | nil => rfl
  | pair rest ih => simp at h
  | single c rest hsingle ih =>
    rw [List.mem_cons, not_or] at h
    rw [ofChars_single hsingle, List.map_cons, ih h.2, if_neg (Ne.symm h.1)]

lemma uniform_uniform (raw : List Char) : uniform (uniform raw) = uniform raw :=
  uniform_eq_self (return_notMem_uniform raw)

/-! ### Where logical characters end -/

/-- The number of raw characters that the first `k` logical characters take. -/
def extent (raw : List Char) (k : Nat) : Nat :=
  (((Glyph.ofChars raw).take k).map Glyph.width).sum

lemma extent_zero (raw : List Char) : extent raw 0 = 0 := rfl

lemma extent_pair (rest : List Char) (k : Nat) :
    extent ('\r' :: '\n' :: rest) (k + 1) = extent rest k + 2 := by
  simp [extent, Glyph.ofChars, Nat.add_comm]

lemma extent_single {c : Char} {rest : List Char} (h : ¬(c = '\r' ∧ rest.head? = some '\n'))
    (k : Nat) : extent (c :: rest) (k + 1) = extent rest k + 1 := by
  simp [extent, ofChars_single h, Nat.add_comm]

lemma ends_cons (c : Char) (rest : List Char) :
    ends (c :: rest) =
      (if c = '\r' ∧ rest.head? = some '\n' then [] else [0]) ++ (ends rest).map (· + 1) := by
  have hhead : SplitsPair (c :: rest) 0 ↔ c = '\r' ∧ rest.head? = some '\n' := by
    simp [SplitsPair, List.head?_eq_getElem?]
  have htail : ∀ i, SplitsPair (c :: rest) (i + 1) ↔ SplitsPair rest i := by
    intro i
    simp [SplitsPair]
  unfold ends
  rw [List.length_cons, List.range_succ_eq_map, List.filter_cons, List.filter_map]
  simp only [hhead, Function.comp_def, Nat.succ_eq_add_one, htail, decide_not]
  by_cases h : c = '\r' ∧ rest.head? = some '\n'
  · simp [h]
  · simp [h]

/-- The last end among those of a text with one more character in front, `w + 1` wide. -/
lemma getLast_shift (w k : Nat) (l : List Nat) :
    ((w :: l.map (· + (w + 1))).take (k + 1)).getLast?.elim (-1 : Int) Nat.cast =
      (l.take k).getLast?.elim (-1 : Int) Nat.cast + (w + 1) := by
  rw [List.take_succ_cons, ← List.map_take, List.getLast?_cons, List.getLast?_map]
  cases (l.take k).getLast? with
  | none =>
    simp only [Option.map_none, Option.getD_none, Option.elim_some, Option.elim_none]
    omega
  | some i => simp

lemma getLast_ends (raw : List Char) (k : Nat) :
    ((ends raw).take k).getLast?.elim (-1) Nat.cast = (extent raw k : Int) - 1 := by
  induction raw using logical_induction generalizing k with
  | nil => simp [ends, extent, Glyph.ofChars]
  | pair rest ih =>
    cases k with
    | zero => simp [extent_zero]
    | succ k =>
      have hends : ends ('\r' :: '\n' :: rest) = 1 :: (ends rest).map (· + 2) := by
        simp [ends_cons]
      rw [hends, getLast_shift, ih, extent_pair]
      omega
  | single c rest h ih =>
    cases k with
    | zero => simp [extent_zero]
    | succ k =>
      have hends : ends (c :: rest) = 0 :: (ends rest).map (· + 1) := by
        rw [ends_cons, if_neg h]
        rfl
      rw [hends, getLast_shift, ih, extent_single h]
      omega

lemma extent_le (raw : List Char) {j k : Nat} (h : j ≤ k) : extent raw j ≤ extent raw k := by
  obtain ⟨d, rfl⟩ := Nat.exists_eq_add_of_le h
  rw [extent, extent, List.take_add, List.map_append, List.sum_append]
  exact Nat.le_add_right _ _

lemma extent_lt_succ {raw : List Char} {k : Nat} (hk : k < (uniform raw).length) :
    extent raw k < extent raw (k + 1) := by
  induction raw using logical_induction generalizing k with
  | nil => simp [uniform, joinPairs] at hk
  | pair rest ih =>
    rw [← length_ofChars, Glyph.ofChars, List.length_cons, length_ofChars] at hk
    cases k with
    | zero => simp [extent_pair, extent_zero]
    | succ k =>
      rw [extent_pair, extent_pair]
      have hrest := ih (k := k) (by omega)
      omega
  | single c rest h ih =>
    rw [← length_ofChars, ofChars_single h, List.length_cons, length_ofChars] at hk
    cases k with
    | zero => simp [extent_single h, extent_zero]
    | succ k =>
      rw [extent_single h, extent_single h]
      have hrest := ih (k := k) (by omega)
      omega

lemma extent_lt {raw : List Char} {j k : Nat} (hjk : j < k) (hk : k ≤ (uniform raw).length) :
    extent raw j < extent raw k := by
  induction k with
  | zero => omega
  | succ k ih =>
    have hstep : extent raw k < extent raw (k + 1) := extent_lt_succ (by omega)
    obtain rfl | hlt := Nat.eq_or_lt_of_le (Nat.le_of_lt_succ hjk)
    · exact hstep
    · exact Nat.lt_trans (ih hlt (by omega)) hstep

/-! ### Cutting a text where logical characters end -/

lemma ofChars_take (raw : List Char) (k : Nat) :
    Glyph.ofChars (raw.take (extent raw k)) = (Glyph.ofChars raw).take k := by
  induction raw using logical_induction generalizing k with
  | nil => simp [Glyph.ofChars]
  | pair rest ih =>
    cases k with
    | zero => simp [extent_zero, Glyph.ofChars]
    | succ k =>
      rw [extent_pair, List.take_succ_cons, List.take_succ_cons, Glyph.ofChars, ih, Glyph.ofChars,
        List.take_succ_cons]
  | single c rest h ih =>
    cases k with
    | zero => simp [extent_zero, Glyph.ofChars]
    | succ k =>
      -- what is left of the rest starts as the rest does, or is empty
      have htake : ¬(c = '\r' ∧ (rest.take (extent rest k)).head? = some '\n') := by
        rintro ⟨hc, hfeed⟩
        obtain ⟨after, hafter⟩ := List.head?_eq_some_iff.mp hfeed
        refine h ⟨hc, ?_⟩
        rw [← List.take_append_drop (extent rest k) rest, hafter]
        rfl
      rw [extent_single h, List.take_succ_cons, ofChars_single htake, ih, ofChars_single h,
        List.take_succ_cons]

lemma ofChars_drop (raw : List Char) (k : Nat) :
    Glyph.ofChars (raw.drop (extent raw k)) = (Glyph.ofChars raw).drop k := by
  induction raw using logical_induction generalizing k with
  | nil => simp [Glyph.ofChars]
  | pair rest ih =>
    cases k with
    | zero => rfl
    | succ k => rw [extent_pair, List.drop_succ_cons, List.drop_succ_cons, ih, Glyph.ofChars,
        List.drop_succ_cons]
  | single c rest h ih =>
    cases k with
    | zero => rfl
    | succ k => rw [extent_single h, List.drop_succ_cons, ih, ofChars_single h, List.drop_succ_cons]

/-- The raw characters of the logical characters from index `j` to index `k`. -/
lemma uniform_cut (raw : List Char) {j k : Nat} (hjk : j ≤ k) :
    uniform ((raw.take (extent raw k)).drop (extent raw j)) = ((uniform raw).take k).drop j := by
  have hextent : extent (raw.take (extent raw k)) j = extent raw j := by
    rw [extent, ofChars_take, List.take_take, Nat.min_eq_left hjk, extent]
  rw [← map_char_ofChars, ← hextent, ofChars_drop, ofChars_take, List.map_drop, List.map_take,
    map_char_ofChars]

/-! ### Positions of indices -/

lemma ofIndex_offset (raw : List Char) (k : Nat) :
    (Position.ofIndex raw k).offset = (extent raw k : Int) - 1 :=
  getLast_ends raw k

/-- No position is in the middle of a CRLF. -/
lemma ofIndex_whole {raw : List Char} {k i : Nat} (h : (Position.ofIndex raw k).offset = i) :
    ¬SplitsPair raw i := by
  change ((ends raw).take k).getLast?.elim (-1 : Int) Nat.cast = i at h
  cases hlast : ((ends raw).take k).getLast? with
  | none =>
    rw [hlast, Option.elim_none] at h
    omega
  | some e =>
    rw [hlast, Option.elim_some] at h
    obtain rfl : e = i := by exact_mod_cast h
    have hmem : e ∈ ends raw := List.mem_of_mem_take (List.mem_of_getLast? hlast)
    simpa using (List.mem_filter.mp hmem).2

lemma Place.forward_pos (n : Nat) (p : Place) :
    (p.forward n).pos = (p.rest.take n).foldl Position.advance p.pos := by
  induction n generalizing p with
  | zero => rfl
  | succ n ih =>
    rw [Place.forward]
    cases hrest : p.rest with
    | nil => rfl
    | cons g rest => rw [ih, List.take_succ_cons, List.foldl_cons, Place.step]

/-- The position after some glyphs, counted from the start of a text. -/
lemma foldl_advance_start (glyphs : List Glyph) :
    glyphs.foldl Position.advance .start =
      ⟨((glyphs.map Glyph.width).sum : Nat) - 1, 1 + (glyphs.map Glyph.char).count '\n',
        ((glyphs.map Glyph.char).reverse.takeWhile (· ≠ '\n')).length⟩ := by
  induction glyphs using List.reverseRecOn with
  | nil => rfl
  | append_singleton glyphs g ih =>
    rw [List.foldl_append, ih, List.foldl_cons, List.foldl_nil, Position.advance]
    by_cases hg : g.char = '\n'
    · simp [hg]
      omega
    · simp [hg]
      omega

/-- Walking forward from the start of a text reaches the position of the index. -/
lemma forward_ofText_pos (text : String) (k : Nat) :
    ((Place.ofText text).forward k).pos = .ofIndex text.toList k := by
  rw [Place.forward_pos]
  change ((Glyph.ofChars text.toList).take k).foldl Position.advance .start = _
  rw [foldl_advance_start, Position.ofIndex, getLast_ends, List.map_take, List.map_take,
    map_char_ofChars, extent, List.map_take]

lemma map_char_forward_ofText (text : String) (k : Nat) :
    ((Place.ofText text).forward k).rest.map Glyph.char = (uniform text.toList).drop k := by
  rw [Place.forward_rest, List.map_drop]
  exact congrArg (List.drop k) (map_char_ofChars text.toList)

end HiToolchain
