import HiToolchain.Proofs.Lowering
import HiToolchain.Proofs.Rejection
import HiToolchain.Proofs.WholeDecimals
import Mathlib.Data.List.TakeWhile

/-!
# Whole numbers in print

A program writes a whole number by its shortest digits, with zeros up to the point. The module of
the program leaves the number to a format that writes all of its digits. What the two write agrees
exactly if the shortest decimal of every printed number is the number itself. That is so below
`2 ^ 54` but not for every number above.
-/

namespace HiToolchain

open Ir

/-! ### Bytes -/

def utf8 (s : String) : List UInt8 := s.toUTF8.data.toList

lemma utf8_append (s t : String) : utf8 (s ++ t) = utf8 s ++ utf8 t := by
  unfold utf8
  rw [String.toUTF8_eq_toByteArray, String.toByteArray_append, ByteArray.toList_data_append]
  rfl

lemma utf8_inj {s t : String} : utf8 s = utf8 t ↔ s = t := by
  constructor
  · intro h
    exact String.toByteArray_inj.mp (ByteArray.ext (Array.toList_inj.mp h))
  · rintro rfl
    rfl

lemma utf8_eq_flatMap (s : String) : utf8 s = s.toList.flatMap String.utf8EncodeChar := by
  conv_lhs => rw [← String.ofList_toList (s := s)]
  unfold utf8
  rw [String.toUTF8_eq_toByteArray, String.toByteArray_ofList, List.utf8Encode,
    List.data_toByteArray, List.toList_toArray]

lemma ofNat_ne_zero {x : Nat} (hpos : 0 < x) (hlt : x < 256) : UInt8.ofNat x ≠ 0 := by
  intro hzero
  have htoNat := congrArg UInt8.toNat hzero
  rw [UInt8.toNat_ofNat_of_lt' hlt] at htoNat
  exact hpos.ne' htoNat

/-- Only the character zero has a byte that is zero. -/
lemma ne_zero_of_mem_utf8EncodeChar {c : Char} (hc : c ≠ Char.ofNat 0) :
    ∀ b ∈ String.utf8EncodeChar c, b ≠ 0 := by
  have hval : 0 < c.val.toNat := by
    rw [Nat.pos_iff_ne_zero]
    intro hzero
    exact hc (Char.ext (UInt32.toNat_inj.mp hzero))
  unfold String.utf8EncodeChar
  dsimp only
  split
  · exact List.forall_mem_singleton.mpr (ofNat_ne_zero hval (by omega))
  · split
    · simp only [List.forall_mem_cons]
      refine ⟨ofNat_ne_zero ?_ ?_, ofNat_ne_zero ?_ ?_, List.forall_mem_nil _⟩ <;> omega
    · split
      · simp only [List.forall_mem_cons]
        refine ⟨ofNat_ne_zero ?_ ?_, ofNat_ne_zero ?_ ?_, ofNat_ne_zero ?_ ?_,
          List.forall_mem_nil _⟩ <;> omega
      · simp only [List.forall_mem_cons]
        refine ⟨ofNat_ne_zero ?_ ?_, ofNat_ne_zero ?_ ?_, ofNat_ne_zero ?_ ?_,
          ofNat_ne_zero ?_ ?_, List.forall_mem_nil _⟩ <;> omega

lemma takeWhile_utf8 {s : String} (h : Char.ofNat 0 ∉ s.toList) :
    (utf8 s).takeWhile (· ≠ 0) = utf8 s := by
  have hall : ∀ b ∈ utf8 s, b ≠ 0 := by
    intro b hb
    rw [utf8_eq_flatMap, List.mem_flatMap] at hb
    obtain ⟨c, hc, hbc⟩ := hb
    exact ne_zero_of_mem_utf8EncodeChar (fun hzero => h (hzero ▸ hc)) b hbc
  exact List.takeWhile_eq_self_iff.mpr fun b hb => decide_eq_true (hall b hb)

/-! ### What is written -/

/-- A finite number without a fraction: plus or minus `n`. -/
def Binary64.IsWhole (v : Binary64) (negative : Bool) (n : Nat) : Prop :=
  ∃ m q, v = .finite negative m q ∧ scaleUp m q = n * scaleUp 1 (-q)

def signedText (negative : Bool) (digits : String) : String :=
  (if negative then "-" else "") ++ digits

/-- What `printf` writes for the formats that modules use. A text ends at its first zero byte, and
`%.0f` writes all digits of a whole number. -/
structure Printf where
  write : Call → List UInt8
  text (s : String) :
    write (.text "%s\n" s) = (utf8 s).takeWhile (· ≠ 0) ++ utf8 "\n"
  whole {v : Binary64} {negative : Bool} {n : Nat} (h : v.IsWhole negative n) :
    write (.number "%.0f\n" v) = utf8 (signedText negative (toString n) ++ "\n")

/-- The bytes that executing a module writes. -/
def Printf.output [Elementary] (printf : Printf) (m : Module) : Option (List UInt8) :=
  m.calls?.map fun calls => calls.flatMap printf.write

/-- The statements print the value `v`. -/
def Prints [Elementary] (body : List Stmt) (v : Binary64) : Prop :=
  ∃ span value, Stmt.print span value ∈ body ∧ value.eval = .ok v

/-- The shortest decimal of the number is the number itself. -/
def Binary64.isWrittenExactly : Binary64 → Bool
  | finite _ m q => (Decimal.shortest m q).isExactly m q
  | _ => false

/-! ### Whole numbers in positional notation -/

lemma positionalBound_eq :
    Binary64.positionalBound = .finite false 7629394531250000 17 := by
  decide +kernel

section

variable {negative : Bool} {m n : Nat} {q : Int}

lemma isIntegral_of_whole (hcanonical : Binary64.Canonical m q)
    (h : scaleUp m q = n * scaleUp 1 (-q)) : (Binary64.finite negative m q).isIntegral := by
  rw [Binary64.isIntegral, Binary64.trunc]
  split
  · exact Binary64.same_finite_iff.mpr rfl
  · next hq =>
    have hfloor : m / twoTo (-q).toNat = n := by
      have hscale : scaleUp 1 (-q) = twoTo (-q).toNat := Nat.one_mul _
      rw [scaleUp_of_nonpos m (by omega), hscale] at h
      rw [h, Nat.mul_div_cancel _ (twoTo_pos _)]
    have hle : n ≤ m := by
      rw [← hfloor]
      exact Nat.div_le_self _ _
    obtain ⟨k, r, hwhole, hvalue⟩ :=
      Binary64.ofRatio_whole negative (hle.trans_lt hcanonical.lt_twoTo)
    rw [hfloor, hwhole, Binary64.same_finite_iff, hvalue, Decimal.whole_eq h]

lemma isPositional_of_whole (hcanonical : Binary64.Canonical m q)
    (h : scaleUp m q = n * scaleUp 1 (-q)) (hn : n < tenTo 21) :
    (Binary64.finite negative m q).isPositional := by
  have hlt : (Binary64.finite false m q).lt Binary64.positionalBound := by
    have hcast : (n : ℚ) < tenTo 21 := by exact_mod_cast hn
    rw [positionalBound_eq, Binary64.lt_finite_iff, Decimal.whole_eq h]
    rw [Decimal.cast_tenTo] at hcast
    norm_num [Binary64.ofSigned] at hcast ⊢
    exact hcast
  rw [Binary64.isPositional, isIntegral_of_whole hcanonical h, Binary64.abs, hlt]
  rfl

end

lemma text_whole {negative : Bool} {m n : Nat} {q : Int} (hcanonical : Binary64.Canonical m q)
    (h : scaleUp m q = n * scaleUp 1 (-q)) (hn : n < tenTo 21) :
    (Binary64.finite negative m q).text =
      signedText negative (Decimal.shortest m q).positional := by
  rw [Binary64.text_finite, if_pos (isPositional_of_whole hcanonical h hn)]
  rfl

section

variable {v : Binary64} {negative : Bool} {n : Nat}

/-- A whole number is written with all its digits exactly if its shortest decimal is exact. -/
lemma text_eq_iff (hcanonical : v.IsCanonical) (h : v.IsWhole negative n) (hn : n < tenTo 21) :
    v.text = signedText negative (toString n) ↔ v.isWrittenExactly := by
  obtain ⟨m, q, rfl, hwhole⟩ := h
  have hexponent := Decimal.shortest_exponent_nonneg hwhole
  rw [text_whole hcanonical hwhole hn, signedText, signedText, String.append_right_inj,
    Binary64.isWrittenExactly]
  obtain rfl | hm := Nat.eq_zero_or_pos m
  · obtain rfl := Decimal.eq_zero_of_whole hwhole
    have hshortest : Decimal.shortest 0 q = ⟨0, 0⟩ := if_pos rfl
    refine iff_of_true ?_ ((Decimal.isExactly_iff hwhole).mpr rfl)
    rw [hshortest, Decimal.positional_whole le_rfl, Nat.toString_eq_ofList_toDigits]
    rfl
  · rw [Decimal.isExactly_iff hwhole,
      Decimal.positional_eq_toString_iff hexponent (Decimal.pos_of_whole hm hwhole)]

lemma newline_notMem_toDigits (n : Nat) : '\n' ∉ Nat.toDigits 10 n := by
  intro hmem
  have hdigit := Nat.isDigit_of_mem_toDigits (by decide) (by decide) hmem
  exact absurd hdigit (by decide)

lemma newline_notMem_signedText {digits : String} (h : '\n' ∉ digits.toList) :
    '\n' ∉ (signedText negative digits).toList := by
  rw [signedText, String.toList_append, List.mem_append]
  rintro (hsign | hdigits)
  · cases negative <;> exact absurd hsign (by decide)
  · exact h hdigits

lemma newline_notMem_text (hcanonical : v.IsCanonical) (h : v.IsWhole negative n)
    (hn : n < tenTo 21) : '\n' ∉ v.text.toList := by
  obtain ⟨m, q, rfl, hwhole⟩ := h
  rw [text_whole hcanonical hwhole hn]
  apply newline_notMem_signedText
  rw [Decimal.positional_whole (Decimal.shortest_exponent_nonneg hwhole), String.toList_ofList,
    List.mem_append]
  rintro (hdigits | hzeros)
  · exact newline_notMem_toDigits _ hdigits
  · exact absurd (List.eq_of_mem_replicate hzeros) (by decide)

end

/-! ### Line by line -/

lemma linesText_cons (line : String) (lines : List String) :
    linesText (line :: lines) = line ++ "\n" ++ linesText lines := by
  unfold linesText
  rw [List.map_cons, String.join_cons]

lemma takeWhile_newline {a : String} (ha : '\n' ∉ a.toList) (x : String) :
    (a ++ "\n" ++ x).toList.takeWhile (· ≠ '\n') = a.toList := by
  have hkept : ∀ c ∈ a.toList, decide (c ≠ '\n') := by
    intro c hc
    exact decide_eq_true fun hnewline => ha (hnewline ▸ hc)
  rw [String.toList_append, String.toList_append, List.append_assoc,
    List.takeWhile_append_of_pos hkept]
  exact List.append_nil _

/-- Lines that hold no line feed can be told apart in what is written. -/
lemma append_newline_inj {a b x y : String} (ha : '\n' ∉ a.toList) (hb : '\n' ∉ b.toList) :
    a ++ "\n" ++ x = b ++ "\n" ++ y ↔ a = b ∧ x = y := by
  constructor
  · intro h
    have hab : a = b := by
      rw [← String.toList_inj, ← takeWhile_newline ha x, h, takeWhile_newline hb y]
    subst hab
    exact ⟨rfl, (String.append_right_inj _).mp h⟩
  · rintro ⟨rfl, rfl⟩
    rfl

lemma prints_cons [Elementary] {s : Stmt} {body : List Stmt} {v : Binary64} :
    Prints (s :: body) v ↔
      (∃ span value, s = .print span value ∧ value.eval = .ok v) ∨ Prints body v := by
  constructor
  · rintro ⟨span, value, hmem, hvalue⟩
    obtain rfl | hmem := List.mem_cons.mp hmem
    · exact .inl ⟨span, value, rfl, hvalue⟩
    · exact .inr ⟨span, value, hmem, hvalue⟩
  · rintro (⟨span, value, rfl, hvalue⟩ | ⟨span, value, hmem, hvalue⟩)
    · exact ⟨span, value, List.mem_cons_self, hvalue⟩
    · exact ⟨span, value, List.mem_cons_of_mem _ hmem, hvalue⟩

lemma prints_print [Elementary] {span : Span} {value : Expr} {body : List Stmt} {v w : Binary64}
    (hvalue : value.eval = .ok v) :
    Prints (.print span value :: body) w ↔ w = v ∨ Prints body w := by
  rw [prints_cons]
  refine or_congr_left ⟨?_, ?_⟩
  · rintro ⟨_, _, ⟨rfl, rfl⟩, hw⟩
    exact Except.ok.inj (hw.symm.trans hvalue)
  · rintro rfl
    exact ⟨span, value, rfl, hvalue⟩

lemma printf_greeting (printf : Printf) {name : String} (h : Char.ofNat 0 ∉ name.toList) :
    printf.write (.text "%s\n" ("hi " ++ name)) = utf8 ("hi " ++ name ++ "\n") := by
  have hgreeting : Char.ofNat 0 ∉ ("hi " ++ name).toList := by
    rw [String.toList_append, List.mem_append]
    rintro (hhi | hname)
    · exact absurd hhi (by decide)
    · exact h hname
  rw [printf.text, takeWhile_utf8 hgreeting, ← utf8_append]

/-- The calls write lines, which are those that the statements write exactly if these print no
number inexactly. -/
def WriteAlike [Elementary] (printf : Printf) (body : List Stmt) (calls : List Call) : Prop :=
  ∃ lines, calls.flatMap printf.write = utf8 (linesText lines) ∧
    (linesText lines = linesText (runStmts none body).1 ↔
      ∀ v, Prints body v → v.isWrittenExactly)

section

variable {printf : Printf} {span : Span} {body : List Stmt} {calls : List Call}

lemma WriteAlike.greet [Elementary] {name : String} (h : WriteAlike printf body calls)
    (hzero : Char.ofNat 0 ∉ name.toList) :
    WriteAlike printf (.greet span name :: body) (.text "%s\n" ("hi " ++ name) :: calls) := by
  obtain ⟨lines, hbytes, hiff⟩ := h
  refine ⟨("hi " ++ name) :: lines, ?_, ?_⟩
  · rw [List.flatMap_cons, printf_greeting printf hzero, hbytes, linesText_cons, ← utf8_append]
  · have hline : (Stmt.greet span name).line? = .ok (some ("hi " ++ name)) := rfl
    rw [runStmts_of_line hline, Option.toList_some, List.singleton_append, linesText_cons,
      linesText_cons, String.append_right_inj, hiff]
    simp [prints_cons]

lemma WriteAlike.print [Elementary] {value : Expr} {v : Binary64} {negative : Bool} {n : Nat}
    (h : WriteAlike printf body calls) (hvalue : value.eval = .ok v) (hv : v.IsWhole negative n)
    (hn : n < tenTo 21) :
    WriteAlike printf (.print span value :: body)
      (.number (if v.isPositional then "%.0f\n" else "%.17g\n") v :: calls) := by
  obtain ⟨lines, hbytes, hiff⟩ := h
  have hcanonical := Expr.eval_isCanonical hvalue
  refine ⟨signedText negative (toString n) :: lines, ?_, ?_⟩
  · have hpositional : v.isPositional := by
      obtain ⟨m, q, rfl, hscale⟩ := hv
      exact isPositional_of_whole hcanonical hscale hn
    rw [List.flatMap_cons, if_pos hpositional, printf.whole hv, hbytes, linesText_cons,
      ← utf8_append]
  · have hline : (Stmt.print span value).line? = .ok (some v.text) := by
      rw [Stmt.line?, hvalue]
      rfl
    have hdigits : '\n' ∉ (toString n).toList := by
      rw [Nat.toString_eq_ofList_toDigits, String.toList_ofList]
      exact newline_notMem_toDigits n
    -- no number holds a line feed, so the lines agree one by one
    rw [runStmts_of_line hline, Option.toList_some, List.singleton_append, linesText_cons,
      linesText_cons, append_newline_inj (newline_notMem_signedText hdigits)
        (newline_notMem_text hcanonical hv hn), eq_comm, text_eq_iff hcanonical hv hn, hiff]
    simp only [prints_print hvalue, forall_eq_or_imp]

lemma WriteAlike.evaluate [Elementary] {value : Expr} {v : Binary64}
    (h : WriteAlike printf body calls) (hvalue : value.eval = .ok v) :
    WriteAlike printf (.evaluate span value :: body) calls := by
  obtain ⟨lines, hbytes, hiff⟩ := h
  refine ⟨lines, hbytes, ?_⟩
  have hline : (Stmt.evaluate span value).line? = .ok none := by
    rw [Stmt.line?, hvalue]
    rfl
  rw [runStmts_of_line hline, Option.toList_none, List.nil_append, hiff]
  simp [prints_cons]

end

/-- The statements print whole numbers below `1e21` only. -/
def PrintsWholes [Elementary] (body : List Stmt) : Prop :=
  ∀ v, Prints body v → ∃ negative n, v.IsWhole negative n ∧ n < tenTo 21

/-- No greeting holds the character zero. -/
def GreetsPlainly (body : List Stmt) : Prop :=
  ∀ span name, Stmt.greet span name ∈ body → Char.ofNat 0 ∉ name.toList

lemma PrintsWholes.of_cons [Elementary] {s : Stmt} {body : List Stmt}
    (h : PrintsWholes (s :: body)) : PrintsWholes body :=
  fun v hv => h v (prints_cons.mpr (.inr hv))

lemma GreetsPlainly.of_cons {s : Stmt} {body : List Stmt} (h : GreetsPlainly (s :: body)) :
    GreetsPlainly body :=
  fun span name hmem => h span name (List.mem_cons_of_mem _ hmem)

lemma Calls.writeAlike [Elementary] (printf : Printf) {body : List Stmt} {calls : List Call}
    (h : Calls body calls) (hwholes : PrintsWholes body) (hplain : GreetsPlainly body) :
    WriteAlike printf body calls := by
  induction h with
  | nil => exact ⟨[], rfl, iff_of_true rfl fun v ⟨_, _, hmem, _⟩ => nomatch hmem⟩
  | greet h ih =>
    have hrest := ih hwholes.of_cons hplain.of_cons
    exact hrest.greet (hplain _ _ List.mem_cons_self)
  | print hvalue h ih =>
    have hrest := ih hwholes.of_cons hplain.of_cons
    obtain ⟨negative, n, hv, hn⟩ := hwholes _ ((prints_print hvalue).mpr (.inl rfl))
    exact hrest.print hvalue hv hn
  | evaluate hvalue h ih =>
    have hrest := ih hwholes.of_cons hplain.of_cons
    exact hrest.evaluate hvalue

/-- A program that runs without a fault has a module. If it prints whole numbers below `1e21` only
and greets without the character zero, executing the module writes what the program writes exactly
if the shortest decimal of every printed number is exact, which it is below `2 ^ 54`. -/
theorem whole_numbers_print_alike_iff_exact [Elementary] (printf : Printf) (p : Program)
    (hrun : p.run.2 = none) (hwholes : PrintsWholes p.body) (hplain : GreetsPlainly p.body) :
    ∃ m out, p.lower = .ok m ∧ printf.output m = some out ∧
      (out = utf8 (linesText p.run.1) ↔ ∀ v, Prints p.body v → v.isWrittenExactly) ∧
      ∀ v negative n, Prints p.body v → v.IsWhole negative n → n < twoTo 54 →
        v.isWrittenExactly := by
  obtain ⟨-, m, hm⟩ | ⟨f, hfault, -⟩ := p.run_lower
  · obtain ⟨calls, hexecuted, hcalls⟩ := Program.lower_calls hm
    obtain ⟨lines, hbytes, hiff⟩ := hcalls.writeAlike printf hwholes hplain
    refine ⟨m, calls.flatMap printf.write, hm, ?_, ?_, ?_⟩
    · rw [Printf.output, hexecuted, Option.map_some]
    · rw [hbytes, utf8_inj]
      exact hiff
    · rintro v negative n ⟨span, value, -, hvalue⟩ ⟨k, q, rfl, hwhole⟩ hn
      exact Decimal.isExactly_of_lt hwhole (Expr.eval_isCanonical hvalue) hn
  · cases hrun.symm.trans hfault

/-- Writes every number by its whole part. -/
def Printf.plain : Printf where
  write
    | .text _ s => (utf8 s).takeWhile (· ≠ 0) ++ utf8 "\n"
    | .number _ (.finite negative m q) =>
      utf8 (signedText negative (toString (scaleUp m q / scaleUp 1 (-q))) ++ "\n")
    | .number _ _ => []
  text _ := rfl
  whole := by
    rintro _ negative n ⟨m, q, rfl, h⟩
    dsimp only
    rw [h, Nat.mul_div_cancel _ (scaleUp_pos Nat.one_pos _)]

theorem negative_number_prints_alike :
    let difference := Expr.binary default .minus (.number default "2")
      (.number default "18014398509481983")
    let p : Program := ⟨default, [.greet default "a", .evaluate default (.number default "1"),
      .print default difference]⟩
    p.run = (["hi a", "-18014398509481982"], none) ∧
      ∃ m, p.lower = .ok m ∧
        Printf.plain.output m = some (utf8 "hi a\n-18014398509481982\n") := by
  intro difference p
  have hrun : p.run = (["hi a", "-18014398509481982"], none) := by decide +kernel
  have hvalue : difference.eval = .ok (.finite true 9007199254740991 1) := by decide +kernel
  have hprints : ∀ v, Prints p.body v ↔ v = .finite true 9007199254740991 1 := by
    intro v
    simp [p, Prints, hvalue, eq_comm]
  have hwhole : Binary64.IsWhole (.finite true 9007199254740991 1) true 18014398509481982 :=
    ⟨_, _, rfl, by decide⟩
  have hwholes : PrintsWholes p.body := by
    intro v hv
    rw [(hprints v).mp hv]
    exact ⟨_, _, hwhole, by decide⟩
  have hplain : GreetsPlainly p.body := by
    intro span name hmem
    obtain ⟨-, rfl⟩ : span = default ∧ name = "a" := by simpa [p] using hmem
    decide
  obtain ⟨m, out, hm, hout, hiff, hexact⟩ :=
    whole_numbers_print_alike_iff_exact .plain p (by rw [hrun]) hwholes hplain
  refine ⟨hrun, m, hm, ?_⟩
  have halike : out = utf8 (linesText p.run.1) := by
    refine hiff.mpr fun v hv => ?_
    rw [(hprints v).mp hv]
    exact hexact _ _ _ ((hprints _).mpr rfl) hwhole (by decide)
  rw [hout, halike, hrun]
  decide +kernel

/-- The gaps around this power of two are so wide that a shorter decimal stands for it. -/
theorem power_of_two_prints_differently :
    ∃ p m, Program.parse "print 36028797018963968" "f" = .ok p ∧
      p.run = (["36028797018963970"], none) ∧ PrintsWholes p.body ∧ GreetsPlainly p.body ∧
      p.lower = .ok m ∧ ∀ printf : Printf,
        printf.output m = some (utf8 "36028797018963968\n") ∧
        utf8 "36028797018963968\n" ≠ utf8 (linesText p.run.1) := by
  let number := Expr.number ⟨⟨5, 1, 6⟩, ⟨22, 1, 23⟩⟩ "36028797018963968"
  let p : Program := ⟨⟨.start, ⟨22, 1, 23⟩⟩, [.print ⟨.start, ⟨22, 1, 23⟩⟩ number]⟩
  have hparse : Program.parse "print 36028797018963968" "f" = .ok p := by decide +kernel
  have hrun : p.run = (["36028797018963970"], none) := by decide +kernel
  have hvalue : number.eval = .ok (.finite false 4503599627370496 3) := by decide +kernel
  have hwhole : Binary64.IsWhole (.finite false 4503599627370496 3) false 36028797018963968 :=
    ⟨_, _, rfl, by decide⟩
  have hwholes : PrintsWholes p.body := by
    intro v hv
    obtain rfl : v = .finite false 4503599627370496 3 := by
      simpa [p, Prints, hvalue, eq_comm] using hv
    exact ⟨_, _, hwhole, by decide⟩
  have hplain : GreetsPlainly p.body := by
    intro span name hmem
    simp [p] at hmem
  obtain ⟨-, m, hm⟩ | ⟨f, hfault, -⟩ := p.run_lower
  · refine ⟨p, m, hparse, hrun, hwholes, hplain, hm, fun printf => ⟨?_, ?_⟩⟩
    · obtain ⟨calls, hexecuted, hcalls⟩ := Program.lower_calls hm
      change Calls [.print _ number] calls at hcalls
      cases hcalls with
      | print hv hrest =>
        cases hrest
        cases hvalue.symm.trans hv
        have hpositional : Binary64.isPositional (.finite false 4503599627370496 3) := by
          decide +kernel
        rw [Printf.output, hexecuted, Option.map_some, List.flatMap_singleton, if_pos hpositional,
          printf.whole hwhole]
        decide +kernel
    · rw [hrun]
      decide +kernel
  · rw [hrun] at hfault
    cases hfault

end HiToolchain
