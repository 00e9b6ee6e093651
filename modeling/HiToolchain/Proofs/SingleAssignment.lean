import HiToolchain.Proofs.DecimalReading
import HiToolchain.Proofs.StringTable

/-!
# Single assignment form

The code of a program has one block without branches, so executing it performs every instruction
once, each after all those before it. An instruction is performed only if its operands have the
right types. Since the code of every program can be executed, its operands are results of earlier
instructions with these types. In the text of a module a result is named by the index of its line,
and every use has the name of the line that defines it.
-/

namespace HiToolchain

open Ir

lemma linesText_append (lines lines' : List String) :
    linesText (lines ++ lines') = linesText lines ++ linesText lines' := by
  induction lines with
  | nil => exact String.empty_append.symm
  | cons line lines ih =>
    simp only [List.cons_append, linesText_cons, ih, String.append_assoc]

namespace Ir

/-! ### Types of operands -/

def Value.ty : Value → Ty
  | .double _ => .double
  | .bit _ => .bit
  | .pointer _ => .text
  | .count => .int

/-- The type of an operand after the instructions `before`: none if it is not the result of one
of these. -/
def Operand.ty? (before : List Instr) : Operand → Option Ty
  | .constant _ => some .double
  | .result i => before[i]?.map Instr.ty

/-- The instruction can follow `before`: its operands have the types that they must have, and it
takes the address of a global that exists. -/
structure Instr.Fits (globals : List String) (before : List Instr) (x : Instr) : Prop where
  operands : ∀ use ∈ x.operands, use.1.ty? before = some use.2
  address : ∀ i, x = .address i → i < globals.length

/-- The type of the value that an operand has when these results are there. -/
def Operand.valueTy? (results : List Value) (x : Operand) : Option Ty :=
  (x.value? results).map Value.ty

section

variable {globals : List String} {results : List Value} {x : Operand}

lemma Operand.ty_of_double? {v : Binary64} (h : x.double? results = some v) :
    x.valueTy? results = some .double := by
  unfold Operand.double? at h
  split at h
  · next hvalue => simp [Operand.valueTy?, hvalue, Value.ty]
  · cases h

lemma Operand.ty_of_bit? {b : Bool} (h : x.bit? results = some b) :
    x.valueTy? results = some .bit := by
  unfold Operand.bit? at h
  split at h
  · next hvalue => simp [Operand.valueTy?, hvalue, Value.ty]
  · cases h

lemma Operand.ty_of_pointer? {i : Nat} (h : x.pointer? results = some i) :
    x.valueTy? results = some .text := by
  unfold Operand.pointer? at h
  split at h
  · next hvalue => simp [Operand.valueTy?, hvalue, Value.ty]
  · cases h

lemma Operand.ty_of_text? {text : String} (h : x.text? globals results = some text) :
    x.valueTy? results = some .text := by
  obtain ⟨i, hi, -⟩ := Option.bind_eq_some_iff.mp h
  exact Operand.ty_of_pointer? hi

/-- An instruction is performed only on operands of the right types, and its result has the type
that belongs to it. -/
lemma Instr.ty_of_perform [Elementary] {i : Instr} {v : Value} {call : Option Call}
    (h : i.perform globals results = some (v, call)) :
    v.ty = i.ty ∧ (∀ use ∈ i.operands, use.1.valueTy? results = some use.2) ∧
      ∀ g, i = .address g → g < globals.length := by
  cases i with
  | arith op x y | power x y | compare op x y =>
    obtain ⟨a, ha, h⟩ := Option.bind_eq_some_iff.mp h
    obtain ⟨b, hb, ⟨rfl⟩⟩ := Option.bind_eq_some_iff.mp h
    simp [Value.ty, Instr.ty, Instr.operands, Operand.ty_of_double? ha, Operand.ty_of_double? hb]
  | trunc x | abs x =>
    obtain ⟨a, ha, ⟨rfl⟩⟩ := Option.bind_eq_some_iff.mp h
    simp [Value.ty, Instr.ty, Instr.operands, Operand.ty_of_double? ha]
  | both x y =>
    obtain ⟨a, ha, h⟩ := Option.bind_eq_some_iff.mp h
    obtain ⟨b, hb, ⟨rfl⟩⟩ := Option.bind_eq_some_iff.mp h
    simp [Value.ty, Instr.ty, Instr.operands, Operand.ty_of_bit? ha, Operand.ty_of_bit? hb]
  | address g =>
    by_cases hg : g < globals.length
    · rw [Instr.perform, if_pos hg] at h
      cases h
      simp [Value.ty, Instr.ty, Instr.operands, hg]
    · rw [Instr.perform, if_neg hg] at h
      cases h
  | select c x y =>
    obtain ⟨b, hb, h⟩ := Option.bind_eq_some_iff.mp h
    obtain ⟨i, hi, h⟩ := Option.bind_eq_some_iff.mp h
    obtain ⟨j, hj, ⟨rfl⟩⟩ := Option.bind_eq_some_iff.mp h
    simp [Value.ty, Instr.ty, Instr.operands, Operand.ty_of_bit? hb, Operand.ty_of_pointer? hi,
      Operand.ty_of_pointer? hj]
  | printNumber f x =>
    obtain ⟨a, ha, h⟩ := Option.bind_eq_some_iff.mp h
    obtain ⟨b, hb, ⟨rfl⟩⟩ := Option.bind_eq_some_iff.mp h
    simp [Value.ty, Instr.ty, Instr.operands, Operand.ty_of_text? ha, Operand.ty_of_double? hb]
  | printText f x =>
    obtain ⟨a, ha, h⟩ := Option.bind_eq_some_iff.mp h
    obtain ⟨b, hb, ⟨rfl⟩⟩ := Option.bind_eq_some_iff.mp h
    simp [Value.ty, Instr.ty, Instr.operands, Operand.ty_of_text? ha, Operand.ty_of_text? hb]

lemma Operand.ty?_eq {before : List Instr}
    (h : results.map Value.ty = before.map Instr.ty) (x : Operand) :
    x.ty? before = x.valueTy? results := by
  cases x with
  | constant v => rfl
  | result i => simp only [Operand.ty?, Operand.valueTy?, Operand.value?, ← List.getElem?_map, h]

/-- Nothing branches, so a run performs every instruction, each after all those before it. -/
lemma fits_of_foldlM [Elementary] {before body : List Instr} {s t : Machine}
    (hs : s.results.map Value.ty = before.map Instr.ty)
    (h : body.foldlM (Machine.step globals) s = some t) {k : Nat} {x : Instr}
    (hx : body[k]? = some x) : x.Fits globals (before ++ body.take k) := by
  induction body generalizing before s k with
  | nil => simp at hx
  | cons i body ih =>
    rw [List.foldlM_cons] at h
    obtain ⟨u, hu, h⟩ := Option.bind_eq_some_iff.mp h
    obtain ⟨⟨v, call⟩, hperform, hafter⟩ := Option.bind_eq_some_iff.mp hu
    obtain rfl : s.after v call = u := by simpa using hafter
    obtain ⟨hty, huses, haddress⟩ := Instr.ty_of_perform hperform
    cases k with
    | zero =>
      obtain rfl : i = x := by simpa using hx
      simp only [List.take_zero, List.append_nil]
      refine ⟨fun use huse => ?_, haddress⟩
      rw [Operand.ty?_eq hs]
      exact huses use huse
    | succ k =>
      have hnext : (s.after v call).results.map Value.ty = (before ++ [i]).map Instr.ty := by
        simp [Machine.after, hs, hty]
      simpa using ih hnext h hx

end

lemma Module.fits_of_calls? [Elementary] {m : Module} {calls : List Call}
    (h : m.calls? = some calls) {k : Nat} {x : Instr} (hx : m.body[k]? = some x) :
    x.Fits m.globals.toList (m.body.toList.take k) := by
  obtain ⟨t, ht, -⟩ := Option.map_eq_some_iff.mp h
  have hnone : (⟨[], []⟩ : Machine).results.map Value.ty = ([] : List Instr).map Instr.ty := rfl
  rw [← Array.getElem?_toList] at hx
  simpa using fits_of_foldlM hnone ht hx

/-! ### Characters of constants -/

/-- What constants are written with. -/
def isNumeral (c : Char) : Bool := c.isAlphanum || c = '.' || c = '+' || c = '-'

lemma isNumeral_of_isDigit {c : Char} (h : c.isDigit) : isNumeral c := by
  simp [isNumeral, Char.isAlphanum, h]

lemma isNumeral_of_digit_or_point {c : Char} (h : c.isDigit ∨ c = '.') : isNumeral c := by
  obtain h | rfl := h
  · exact isNumeral_of_isDigit h
  · decide

lemma isNumeral_of_mem_toDigits {n : Nat} : ∀ c ∈ Nat.toDigits 10 n, isNumeral c :=
  fun _ hc => isNumeral_of_isDigit (Nat.isDigit_of_mem_toDigits (by decide) (by decide) hc)

lemma isNumeral_of_mem_scientific (width : Nat) (d : Decimal) :
    ∀ c ∈ (d.scientific width).toList, isNumeral c := by
  obtain ⟨digits, htext, hdigits, -⟩ := Decimal.scientific_eq width d
  intro c hc
  rw [htext, List.mem_append, List.mem_cons, List.mem_cons, List.mem_append] at hc
  obtain hc | rfl | rfl | hc | hc := hc
  · exact isNumeral_of_digit_or_point (hdigits c hc)
  · decide
  · split <;> decide
  · exact isNumeral_of_isDigit (Decimal.isDigit_of_mem_zeros _ c hc)
  · exact isNumeral_of_mem_toDigits c hc

lemma isNumeral_of_mem_written (style : NumberStyle) (d : Decimal) :
    ∀ c ∈ (d.written style).toList, isNumeral c := by
  unfold Decimal.written
  dsimp only
  split
  · exact isNumeral_of_mem_scientific _ d
  · exact fun c hc => isNumeral_of_digit_or_point (d.isDigit_or_point_of_mem_positional c hc)

lemma isNumeral_of_mem_withPoint {number : String} (h : ∀ c ∈ number.toList, isNumeral c) :
    ∀ c ∈ (withPoint number).toList, isNumeral c := by
  unfold withPoint
  split
  · exact h
  · intro c hc
    simp only [String.toList_append, String.toList_ofList, List.mem_append] at hc
    obtain (hc | hc) | hc := hc
    · exact h c ((List.takeWhile_prefix _).subset hc)
    · exact List.all_eq_true.mp (by decide) c hc
    · exact h c (List.mem_of_mem_drop hc)

lemma exists_digitChar_of_mem_toDigits (n : Nat) :
    ∀ c ∈ Nat.toDigits 16 n, ∃ k < 16, c = Nat.digitChar k := by
  induction n using Nat.strong_induction_on with
  | _ n ih =>
    rw [Nat.toDigits_eq_if (by decide)]
    split
    · next hlt => simpa using ⟨n, hlt, rfl⟩
    · next hle =>
      intro c hc
      rw [List.mem_append, List.mem_singleton] at hc
      obtain hc | rfl := hc
      · exact ih (n / 16) (Nat.div_lt_self (by omega) (by decide)) c hc
      · exact ⟨n % 16, Nat.mod_lt _ (by decide), rfl⟩

lemma isNumeral_of_mem_hexPadded (width n : Nat) :
    ∀ c ∈ (hexPadded width n).toUpper.toList, isNumeral c := by
  intro c hc
  have hdigit : ∀ k < 16, isNumeral (Nat.digitChar k).toUpper := by decide
  rw [String.toUpper, String.toList_map, List.mem_map, hexPadded, String.toList_ofList] at hc
  obtain ⟨c, hc, rfl⟩ := hc
  obtain hc | hc := List.mem_append.mp hc
  · rw [List.eq_of_mem_replicate hc]
    decide
  · obtain ⟨k, hk, rfl⟩ := exists_digitChar_of_mem_toDigits n c hc
    exact hdigit k hk

lemma isNumeral_of_mem_constantText (v : Binary64) :
    ∀ c ∈ (constantText v).toList, isNumeral c := by
  have hbits : ∀ c ∈ ("0x" ++ (hexPadded 16 v.toBits).toUpper).toList, isNumeral c := by
    rw [String.toList_append]
    exact List.forall_mem_append.mpr
      ⟨List.all_eq_true.mp (by decide), isNumeral_of_mem_hexPadded 16 _⟩
  unfold constantText
  dsimp only
  split
  · split
    · rw [String.toList_append]
      refine List.forall_mem_append.mpr ⟨List.all_eq_true.mp (by split <;> decide), ?_⟩
      exact isNumeral_of_mem_withPoint (isNumeral_of_mem_written generalStyle _)
    · exact hbits
  · exact hbits

/-! ### Names in a text -/

def isNameChar (c : Char) : Bool := c.isAlphanum || c = '.' || c = '_'

/-- The names that follow a mark in a text. -/
def namesAfter (mark : Char) : List Char → List String
  | [] => []
  | c :: cs =>
    if c = mark then String.ofList (cs.takeWhile isNameChar) :: namesAfter mark cs
    else namesAfter mark cs

section

variable {mark : Char}

lemma namesAfter_append {cs : List Char} (h : mark ∉ cs) (rest : List Char) :
    namesAfter mark (cs ++ rest) = namesAfter mark rest := by
  induction cs with
  | nil => rfl
  | cons c cs ih =>
    have hc : c ≠ mark ∧ mark ∉ cs := by simpa [eq_comm] using h
    rw [List.cons_append, namesAfter, if_neg hc.1, ih hc.2]

/-- A name ends where what follows does not continue it. -/
lemma namesAfter_mark {name : String} {rest : List Char} (hname : ∀ c ∈ name.toList, isNameChar c)
    (hmark : isNameChar mark = false) (hrest : rest.takeWhile isNameChar = []) :
    namesAfter mark (mark :: (name.toList ++ rest)) = name :: namesAfter mark rest := by
  have hnone : mark ∉ name.toList := by
    intro hmem
    rw [hname mark hmem] at hmark
    cases hmark
  rw [namesAfter, if_pos rfl, List.takeWhile_append_of_pos hname, hrest, List.append_nil,
    String.ofList_toList, namesAfter_append hnone]

end

/-! ### Texts of instructions -/

/-- The index of the result that an operand is. -/
def Operand.index? : Operand → Option Nat
  | .constant _ => none
  | .result i => some i

/-- The indices of the results that an instruction uses. -/
def Instr.results (x : Instr) : List Nat := x.operands.flatMap fun use => use.1.index?.toList

/-- A part of the text of an instruction. -/
inductive Chunk where
  | plain (text : String)
  | name (text : String)
  | use (x : Operand)

namespace Chunk

def chars : Chunk → List Char
  | plain text => text.toList
  | name text => '@' :: text.toList
  | use x => x.text.toList

/-- The names that follow a mark: `@` for functions and globals, `%` for results. -/
def names (mark : Char) : Chunk → List String
  | plain _ => []
  | name text => if mark = '@' then [text] else []
  | use x => if mark = '%' then x.index?.toList.map toString else []

/-- Text without marks and line feeds, and names that are one. -/
def Clean : Chunk → Prop
  | plain text => '%' ∉ text.toList ∧ '@' ∉ text.toList ∧ '\n' ∉ text.toList
  | name text => ∀ c ∈ text.toList, isNameChar c
  | use _ => True

/-- Names and operands end where the text ends or goes on with another character. -/
def Spaced : List Chunk → Prop
  | [] => True
  | plain _ :: rest => Spaced rest
  | _ :: rest => (rest.flatMap chars).takeWhile isNameChar = [] ∧ Spaced rest

end Chunk

/-- The text of an instruction in parts. -/
def Instr.chunks (globals : Array String) : Instr → List Chunk
  | .arith op x y => [.plain (op.mnemonic ++ " double "), .use x, .plain ", ", .use y]
  | .power x y => [.plain "call double ", .name "llvm.pow.f64", .plain "(double ", .use x,
      .plain ", double ", .use y, .plain ")"]
  | .trunc x => [.plain "call double ", .name "llvm.trunc.f64", .plain "(double ", .use x,
      .plain ")"]
  | .abs x => [.plain "call double ", .name "llvm.fabs.f64", .plain "(double ", .use x, .plain ")"]
  | .compare p x y => [.plain ("fcmp " ++ p.mnemonic ++ " double "), .use x, .plain ", ", .use y]
  | .both a b => [.plain "and i1 ", .use a, .plain ", ", .use b]
  | .address i => [.plain ("bitcast " ++ arrayType (globals.getD i "") ++ "* "),
      .name (globalName i (globals.getD i "")), .plain " to i8*"]
  | .select c a b => [.plain "select i1 ", .use c, .plain ", i8* ", .use a, .plain ", i8* ", .use b]
  | .printNumber f x => [.plain "call i32 (i8*, ...) ", .name "printf", .plain "(i8* ", .use f,
      .plain ", double ", .use x, .plain ")"]
  | .printText f s => [.plain "call i32 (i8*, ...) ", .name "printf", .plain "(i8* ", .use f,
      .plain ", i8* ", .use s, .plain ")"]

lemma Instr.toList_text (globals : Array String) (x : Instr) :
    (x.text globals).toList = (x.chunks globals).flatMap Chunk.chars := by
  -- the equations of the text are costly to derive, so it is unfolded as it stands
  cases x <;>
    (delta Instr.text
     simp [Instr.chunks, Chunk.chars])

/-! ### Names in instructions -/

lemma Operand.chars_of_constant (v : Binary64) {c : Char} (hc : isNumeral c = false) :
    c ∉ (Operand.constant v).text.toList := by
  intro hmem
  have hnumeral := isNumeral_of_mem_constantText v c hmem
  rw [hc] at hnumeral
  cases hnumeral

lemma Operand.toList_result (i : Nat) :
    (Operand.result i).text.toList = '%' :: (toString i).toList := by
  rw [Operand.text, String.toList_append]
  rfl

lemma isNameChar_of_mem_toDigits (n : Nat) : ∀ c ∈ Nat.toDigits 10 n, isNameChar c := by
  intro c hc
  have hdigit := Nat.isDigit_of_mem_toDigits (by decide) (by decide) hc
  simp [isNameChar, Char.isAlphanum, hdigit]

lemma isNameChar_of_mem_toString (i : Nat) : ∀ c ∈ (toString i).toList, isNameChar c := by
  rw [Nat.toString_eq_ofList_toDigits, String.toList_ofList]
  exact isNameChar_of_mem_toDigits i

lemma notMem_of_isNameChar {cs : List Char} {c : Char} (hcs : ∀ c ∈ cs, isNameChar c)
    (hc : isNameChar c = false) : c ∉ cs := by
  intro hmem
  rw [hcs c hmem] at hc
  cases hc

namespace Chunk

lemma notMem_name {text : String} (h : (name text).Clean) {c : Char} (hmark : c ≠ '@')
    (hc : isNameChar c = false) : c ∉ (name text).chars := by
  have htext := notMem_of_isNameChar h hc
  simp [chars, hmark, htext]

lemma notMem_result (i : Nat) {c : Char} (hmark : c ≠ '%') (hc : isNameChar c = false) :
    c ∉ (use (.result i)).chars := by
  have hdigits := notMem_of_isNameChar (isNameChar_of_mem_toString i) hc
  rw [chars, Operand.toList_result, List.mem_cons, not_or]
  exact ⟨hmark, hdigits⟩

/-- One chunk adds the names that stand in it. -/
lemma namesAfter_chars {mark : Char} (hmark : mark = '%' ∨ mark = '@') {chunk : Chunk}
    (hclean : chunk.Clean) {rest : List Char}
    (hrest : (∃ text, chunk = plain text) ∨ rest.takeWhile isNameChar = []) :
    namesAfter mark (chunk.chars ++ rest) = chunk.names mark ++ namesAfter mark rest := by
  cases chunk with
  | plain text =>
    apply namesAfter_append
    obtain rfl | rfl := hmark
    · exact hclean.1
    · exact hclean.2.1
  | name text =>
    obtain rfl | rfl := hmark
    · exact namesAfter_append (notMem_name hclean (by decide) (by decide)) rest
    · exact namesAfter_mark hclean (by decide) (hrest.resolve_left (by simp))
  | use x =>
    cases x with
    | constant v =>
      have hnames : (use (.constant v)).names mark = [] := by simp [names, Operand.index?]
      rw [hnames]
      apply namesAfter_append
      obtain rfl | rfl := hmark
      · exact Operand.chars_of_constant v (by decide)
      · exact Operand.chars_of_constant v (by decide)
    | result i =>
      obtain rfl | rfl := hmark
      · rw [chars, Operand.toList_result]
        exact namesAfter_mark (isNameChar_of_mem_toString i) (by decide)
          (hrest.resolve_left (by simp))
      · exact namesAfter_append (notMem_result i (by decide) (by decide)) rest

/-- The names in a text are those of its chunks, in order. -/
lemma namesAfter_flatMap {mark : Char} (hmark : mark = '%' ∨ mark = '@') {chunks : List Chunk}
    (hclean : ∀ chunk ∈ chunks, chunk.Clean) (hspaced : Spaced chunks) :
    namesAfter mark (chunks.flatMap chars) = chunks.flatMap (names mark) := by
  induction chunks with
  | nil => rfl
  | cons chunk chunks ih =>
    obtain ⟨hchunk, hchunks⟩ := List.forall_mem_cons.mp hclean
    have hends : ((∃ text, chunk = plain text) ∨
        (chunks.flatMap chars).takeWhile isNameChar = []) ∧ Spaced chunks := by
      cases chunk with
      | plain text => exact ⟨.inl ⟨text, rfl⟩, hspaced⟩
      | name text => exact ⟨.inr hspaced.1, hspaced.2⟩
      | use x => exact ⟨.inr hspaced.1, hspaced.2⟩
    rw [List.flatMap_cons, List.flatMap_cons, namesAfter_chars hmark hchunk hends.1,
      ih hchunks hends.2]

lemma newline_notMem_chars {chunk : Chunk} (h : chunk.Clean) : '\n' ∉ chunk.chars := by
  cases chunk with
  | plain text => exact h.2.2
  | name text => exact notMem_name h (by decide) (by decide)
  | use x =>
    cases x with
    | constant v => exact Operand.chars_of_constant v (by decide)
    | result i => exact notMem_result i (by decide) (by decide)

end Chunk

lemma Instr.spaced_chunks (globals : Array String) (x : Instr) :
    Chunk.Spaced (x.chunks globals) := by
  have hspace : isNameChar ' ' = false := by decide
  have hcomma : isNameChar ',' = false := by decide
  have hopen : isNameChar '(' = false := by decide
  have hclose : isNameChar ')' = false := by decide
  cases x <;> simp [Instr.chunks, Chunk.Spaced, Chunk.chars, hspace, hcomma, hopen, hclose]

lemma isNameChar_of_mem_globalName (i : Nat) (text : String) :
    ∀ c ∈ (globalName i text).toList, isNameChar c := by
  rw [toList_globalName]
  refine List.forall_mem_append.mpr
    ⟨List.all_eq_true.mp (by decide), List.forall_mem_append.mpr ⟨?_, ?_⟩⟩
  · exact isNameChar_of_mem_toDigits _
  · exact List.forall_mem_cons.mpr ⟨by decide, isNameChar_of_mem_toDigits i⟩

lemma clean_arrayType (text : String) :
    (Chunk.plain ("bitcast " ++ arrayType text ++ "* ")).Clean := by
  have hsize : ∀ c, isNameChar c = false → c ∉ Nat.toDigits 10 (text.utf8ByteSize + 1) :=
    fun c => notMem_of_isNameChar (isNameChar_of_mem_toDigits _)
  have hpercent := hsize '%' (by decide)
  have hat := hsize '@' (by decide)
  have hnewline := hsize '\n' (by decide)
  simp [Chunk.Clean, arrayType, hpercent, hat, hnewline]

lemma Instr.clean_chunks (globals : Array String) (x : Instr) :
    ∀ chunk ∈ x.chunks globals, chunk.Clean := by
  cases x with
  | arith op x y => cases op <;> simp [Instr.chunks, Chunk.Clean, Arith.mnemonic]
  | compare p x y => cases p <;> simp [Instr.chunks, Chunk.Clean, Predicate.mnemonic]
  | both x y | select x y z => simp [Instr.chunks, Chunk.Clean]
  | address i =>
    simp only [Instr.chunks, List.forall_mem_cons]
    refine ⟨clean_arrayType _, isNameChar_of_mem_globalName i _, ?_, List.forall_mem_nil _⟩
    simp [Chunk.Clean]
  | power x y | trunc x | abs x | printNumber x y | printText x y =>
    simp [Instr.chunks, Chunk.Clean]
    decide

lemma Instr.flatMap_names (globals : Array String) (x : Instr) :
    (x.chunks globals).flatMap (Chunk.names '%') = x.results.map toString := by
  cases x <;> simp [Instr.chunks, Chunk.names, Instr.results, Instr.operands]

/-! ### Well-formed instructions -/

lemma Instr.names_mem {globals : Array String} {x : Instr} {name : String}
    (h : name ∈ (x.chunks globals).flatMap (Chunk.names '@')) :
    (name ∈ functionNames ∧ name ≠ "main") ∨
      ∃ g, x = .address g ∧ name = globalName g (globals.getD g "") := by
  rw [functionNames_eq]
  cases x with
  | address i =>
    right
    simpa [Instr.chunks, Chunk.names] using h
  | arith op x y | compare p x y | both x y | select x y z =>
    simp [Instr.chunks, Chunk.names] at h
  | power x y | trunc x | abs x | printNumber x y | printText x y =>
    left
    obtain rfl : name = _ := by simpa [Instr.chunks, Chunk.names] using h
    decide

/-- The operations of a block that do not end it. -/
def opcodes : List String :=
  ["fadd", "fsub", "fmul", "fdiv", "call", "fcmp", "and", "bitcast", "select"]

lemma Instr.exists_opcode (globals : Array String) (x : Instr) :
    ∃ opcode ∈ opcodes, (opcode ++ " ").toList <+: (x.text globals).toList := by
  rw [Instr.toList_text]
  cases x with
  | arith op x y =>
    refine ⟨op.mnemonic, by cases op <;> decide, ?_⟩
    cases op <;> simp [Instr.chunks, Chunk.chars, Arith.mnemonic]
  | compare p x y => exact ⟨"fcmp", by decide, by simp [Instr.chunks, Chunk.chars]⟩
  | both x y => exact ⟨"and", by decide, by simp [Instr.chunks, Chunk.chars]⟩
  | address i => exact ⟨"bitcast", by decide, by simp [Instr.chunks, Chunk.chars]⟩
  | select x y z => exact ⟨"select", by decide, by simp [Instr.chunks, Chunk.chars]⟩
  | power x y | trunc x | abs x | printNumber x y | printText x y =>
    exact ⟨"call", by decide, by simp [Instr.chunks, Chunk.chars]⟩

/-- The instruction at index `i` of a module is in single assignment form, and so is its text. -/
structure Instr.WellFormed (m : Module) (i : Nat) (x : Instr) : Prop where
  operands : ∀ use ∈ x.operands, use.1.ty? (m.body.toList.take i) = some use.2
  address : ∀ g, x = .address g → ∃ text, Refers m g text
  earlier : ∀ j ∈ x.results, j < i
  uses : namesAfter '%' (x.text m.globals).toList = x.results.map toString
  names : ∀ name ∈ namesAfter '@' (x.text m.globals).toList,
    (name ∈ functionNames ∧ name ≠ "main") ∨
      ∃ g text, m.globals[g]? = some text ∧ name = globalName g text
  opcode : ∃ opcode ∈ opcodes, (opcode ++ " ").toList <+: (x.text m.globals).toList
  line : '\n' ∉ (x.text m.globals).toList

lemma Instr.lt_of_mem_results {globals : List String} {before : List Instr} {x : Instr}
    (h : x.Fits globals before) {j : Nat} (hj : j ∈ x.results) : j < before.length := by
  obtain ⟨use, huse, hindex⟩ := List.mem_flatMap.mp hj
  obtain ⟨operand, ty⟩ := use
  have hty := h.operands _ huse
  cases operand with
  | constant v => simp [Operand.index?] at hindex
  | result i =>
    obtain rfl : i = j := by simpa [Operand.index?, eq_comm] using hindex
    obtain ⟨y, hy, -⟩ := Option.map_eq_some_iff.mp hty
    exact (List.getElem?_eq_some_iff.mp hy).1

lemma Instr.wellFormed_of_fits {m : Module} {i : Nat} {x : Instr}
    (h : x.Fits m.globals.toList (m.body.toList.take i)) : x.WellFormed m i := by
  have hclean := x.clean_chunks m.globals
  have hspaced := x.spaced_chunks m.globals
  have hglobal : ∀ g, x = .address g → ∃ text, m.globals[g]? = some text := by
    intro g hg
    have hlt := h.address g hg
    rw [Array.length_toList] at hlt
    exact ⟨_, Array.getElem?_eq_getElem hlt⟩
  refine ⟨h.operands, fun g hg => ?_, fun j hj => ?_, ?_, fun name hname => ?_,
    x.exists_opcode m.globals, ?_⟩
  · obtain ⟨text, htext⟩ := hglobal g hg
    exact ⟨text, refers_of_getElem? htext⟩
  · have hlt := Instr.lt_of_mem_results h hj
    rw [List.length_take] at hlt
    omega
  · rw [Instr.toList_text, Chunk.namesAfter_flatMap (.inl rfl) hclean hspaced, Instr.flatMap_names]
  · rw [Instr.toList_text, Chunk.namesAfter_flatMap (.inr rfl) hclean hspaced] at hname
    obtain hfunction | ⟨g, hg, rfl⟩ := Instr.names_mem hname
    · exact .inl hfunction
    · obtain ⟨text, htext⟩ := hglobal g hg
      refine .inr ⟨g, text, htext, ?_⟩
      rw [Array.getD_eq_getD_getElem?, htext, Option.getD_some]
  · rw [Instr.toList_text]
    intro hmem
    obtain ⟨chunk, hchunk, hc⟩ := List.mem_flatMap.mp hmem
    exact Chunk.newline_notMem_chars (hclean chunk hchunk) hc

/-! ### Whole modules -/

/-- The lines of the instructions of `main`: each names its result by its index. -/
def Module.lines (m : Module) : List String :=
  m.body.toList.mapIdx fun i x => "\t%" ++ toString i ++ " = " ++ x.text m.globals

lemma Module.text_eq (m : Module) : m.text =
    String.join (m.globals.toList.mapIdx globalLine) ++ (if m.globals.isEmpty then "" else "\n") ++
      String.join (declarations.map fun d => "declare " ++ d ++ "\n\n") ++
      linesText (["define i32 @main() \x7b", "entry:"] ++ m.lines ++ ["\tret i32 0", "\x7d"]) := by
  have hbody : String.join (m.body.toList.mapIdx fun i x =>
      "\t%" ++ toString i ++ " = " ++ x.text m.globals ++ "\n") = linesText m.lines := by
    rw [linesText, Module.lines]
    congr 1
    apply List.ext_getElem <;> simp
  have hfirst : linesText ["define i32 @main() \x7b", "entry:"] =
    "define i32 @main() \x7b\nentry:\n" := by decide
  have hlast : linesText ["\tret i32 0", "\x7d"] = "\tret i32 0\n\x7d\n" := by decide
  rw [linesText_append, linesText_append, hfirst, hlast, ← hbody]
  unfold Module.text
  dsimp only
  simp only [String.append_assoc]

end Ir

/-- The module of a program is in single assignment form. Its text has one block, in which the
instructions stand line by line and a return is the last. Each instruction names its result by its
index; its operands are constants and results of earlier instructions, of the types that it needs,
and the functions and globals that it names are declared. No instruction ends the block. -/
theorem lower_single_assignment (p : Program) (m : Module) (h : p.lower = .ok m) :
    m.text = String.join (m.globals.toList.mapIdx globalLine) ++
        (if m.globals.isEmpty then "" else "\n") ++
        String.join (declarations.map fun d => "declare " ++ d ++ "\n\n") ++
        linesText (["define i32 @main() \x7b", "entry:"] ++ m.lines ++ ["\tret i32 0", "\x7d"]) ∧
      ∀ (i : Nat) (x : Instr), m.body[i]? = some x →
        m.lines[i]? = some ("\t%" ++ toString i ++ " = " ++ x.text m.globals) ∧
          x.WellFormed m i := by
  refine ⟨m.text_eq, fun i x hx => ⟨?_, ?_⟩⟩
  · rw [Module.lines, List.getElem?_mapIdx, Array.getElem?_toList, hx]
    rfl
  · obtain ⟨calls, hcalls, -⟩ := Program.lower_calls h
    exact Instr.wellFormed_of_fits (Module.fits_of_calls? hcalls hx)

/-- The power comes before the sum, whose second operand it is. -/
theorem sum_with_power_single_assignment :
    let sum := Expr.binary default .plus (.number default "1")
      (.binary default .power (.number default "2") (.number default "3"))
    let p : Program := ⟨default, [.greet default "a", .evaluate default sum]⟩
    ∃ m, p.lower = .ok m ∧ m.lines[4]? = some "\t%4 = fadd double 1.0, %3" ∧
      namesAfter '%' "fadd double 1.0, %3".toList = ["3"] ∧
      Operand.ty? (m.body.toList.take 4) (.result 3) = some .double := by
  intro sum p
  let one := Binary64.finite false (twoTo 52) (-52)
  let two := Binary64.finite false (twoTo 52) (-51)
  let three := Binary64.finite false (3 * twoTo 51) (-51)
  let last := Instr.arith .add (.constant one) (.result 3)
  have hlower : p.lower = .ok ⟨#["hi a", "%s\n"], #[.address 0, .address 1,
      .printText (.result 1) (.result 0), .power (.constant two) (.constant three), last]⟩ := by
    decide +kernel
  have htext : last.text #["hi a", "%s\n"] = "fadd double 1.0, %3" := by decide +kernel
  obtain ⟨-, hinstructions⟩ := lower_single_assignment p _ hlower
  obtain ⟨hline, hformed⟩ := hinstructions 4 last rfl
  have huses := hformed.uses
  rw [htext] at hline huses
  have htype := hformed.operands (.result 3, .double) (by simp [last, Instr.operands])
  exact ⟨_, hlower, hline, huses, htype⟩

end HiToolchain
