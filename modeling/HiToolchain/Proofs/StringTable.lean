import HiToolchain.Proofs.PrintedWholes

/-!
# The string globals of a module

Every text that a module refers to has one global, in the order of first use. It holds the bytes of
the text and a final zero, under a name that no other global and no function has: the hash in it
may be that of another text as well, the index is not.
-/

namespace HiToolchain

open Ir Lower

/-- The bytes of a character array as it is written: a backslash and two hexadecimal digits are
one byte, any other ASCII character but a quote is itself. -/
def arrayBytes? : List Char → Option (List UInt8)
  | [] => some []
  | '\\' :: x :: y :: rest => do
    let n ← hexNumber? [x, y]
    let bytes ← arrayBytes? rest
    return n.toUInt8 :: bytes
  | c :: rest => do
    guard (c ≠ '\\' ∧ c ≠ '"' ∧ c.toNat < 128)
    let bytes ← arrayBytes? rest
    return c.toNat.toUInt8 :: bytes

/-- The line defines a constant that holds the bytes, in an array of their number. -/
def DefinesConstant (line name : String) (bytes : List UInt8) : Prop :=
  ∃ written, arrayBytes? written.toList = some bytes ∧
    line = "@" ++ name ++ " = constant " ++ ("[" ++ toString bytes.length ++ " x i8]") ++ " c\""
      ++ written ++ "\"\n"

/-- The names of the functions that are declared and of the one that is defined. -/
def functionNames : List String :=
  "main" :: declarations.map fun d =>
    String.ofList ((d.toList.dropWhile (· ≠ '@')).tail.takeWhile (· ≠ '('))

/-! ### Texts without repetition -/

lemma nodup_eraseDups (texts : List String) : texts.eraseDups.Nodup := by
  induction texts using List.reverseRecOn with
  | nil => exact List.nodup_nil
  | append_singleton texts text ih =>
    rw [eraseDups_concat]
    by_cases h : text ∈ texts
    · rw [if_pos h]
      exact ih
    · rw [if_neg h, List.nodup_append_comm]
      simp [ih, h]

/-! ### Names -/

lemma toList_globalName (i : Nat) (text : String) : (globalName i text).toList =
    "_str_".toList ++ (Nat.toDigits 10 (Ir.hash text).toNat ++ '_' :: Nat.toDigits 10 i) := by
  simp [globalName]

/-- The index can be read off the name, because no digit is an underscore. -/
lemma index_of_globalName {i j : Nat} {text text' : String}
    (h : globalName i text = globalName j text') : i = j := by
  have hchars := congrArg String.toList h
  rw [toList_globalName, toList_globalName, List.append_right_inj,
    List.append_cons_inj_of_notMem Nat.underscore_not_in_toDigits
      Nat.underscore_not_in_toDigits] at hchars
  calc i = Nat.ofDigitChars 10 (Nat.toDigits 10 i) 0 := Nat.ofDigitChars_ten_toDigits.symm
    _ = Nat.ofDigitChars 10 (Nat.toDigits 10 j) 0 := by rw [hchars.2.2]
    _ = j := Nat.ofDigitChars_ten_toDigits

lemma nodup_globalNames (globals : List String) : (globals.mapIdx globalName).Nodup := by
  rw [List.Nodup, List.pairwise_iff_getElem]
  intro i j hi hj hlt
  rw [List.getElem_mapIdx, List.getElem_mapIdx]
  intro hsame
  have hindex := index_of_globalName hsame
  omega

lemma functionNames_eq : functionNames =
    ["main", "printf", "llvm.pow.f64", "llvm.trunc.f64", "llvm.fabs.f64"] := by
  decide +kernel

lemma globalName_notMem (i : Nat) (text : String) : globalName i text ∉ functionNames := by
  have hfirst : (globalName i text).toList.head? = some '_' := by
    rw [toList_globalName]
    rfl
  have hothers : ∀ name ∈ functionNames, name.toList.head? ≠ some '_' := by
    rw [functionNames_eq]
    decide
  exact fun hmem => hothers _ hmem hfirst

/-! ### Bytes -/

lemma arrayBytes_byteText (b : UInt8) : arrayBytes? (byteText b).toList = some [b] := by
  have hall : ∀ n : Fin 256,
      arrayBytes? (byteText n.val.toUInt8).toList = some [n.val.toUInt8] := by
    decide +kernel
  simpa using hall ⟨b.toNat, b.toNat_lt⟩

/-- An array is read byte by byte, whatever follows. -/
lemma arrayBytes_append {chars : List Char} {bytes : List UInt8}
    (h : arrayBytes? chars = some bytes) (rest : List Char) :
    arrayBytes? (chars ++ rest) = (arrayBytes? rest).map (bytes ++ ·) := by
  fun_induction arrayBytes? chars generalizing bytes with
  | case1 =>
    cases h
    simp
  | case2 x y chars ih =>
    obtain ⟨n, hn, h⟩ := Option.bind_eq_some_iff.mp h
    obtain ⟨tail, htail, ⟨rfl⟩⟩ := Option.bind_eq_some_iff.mp h
    simp only [List.cons_append, arrayBytes?, hn, ih htail]
    cases arrayBytes? rest <;> rfl
  | case3 c chars hescape ih =>
    obtain ⟨_, hguard, h⟩ := Option.bind_eq_some_iff.mp h
    obtain ⟨tail, htail, ⟨rfl⟩⟩ := Option.bind_eq_some_iff.mp h
    have hplain : c ≠ '\\' ∧ c ≠ '"' ∧ c.toNat < 128 := by
      simpa [guard] using hguard
    rw [List.cons_append, arrayBytes?, ih htail]
    · cases arrayBytes? rest <;> simp [hplain]
    · intro x y more hc
      exact absurd hc hplain.1

lemma arrayBytes_join (bytes : List UInt8) :
    arrayBytes? (String.join (bytes.map byteText)).toList = some bytes := by
  induction bytes with
  | nil => rfl
  | cons b bytes ih =>
    rw [List.map_cons, String.join_cons, String.toList_append,
      arrayBytes_append (arrayBytes_byteText b), ih]
    rfl

lemma toList_loop_eq (bytes : ByteArray) (i : Nat) (read : List UInt8) :
    ByteArray.toList.loop bytes i read = read.reverse ++ bytes.data.toList.drop i := by
  fun_induction ByteArray.toList.loop bytes i read with
  | case1 i read hi ih =>
    have hi' : i < bytes.data.toList.length := by simpa using hi
    rw [ih, List.drop_eq_getElem_cons hi']
    simp [ByteArray.get!, hi]
  | case2 i read hi =>
    rw [List.drop_eq_nil_of_le (by simpa using Nat.le_of_not_lt hi)]
    simp

lemma toList_toUTF8 (text : String) : text.toUTF8.toList = utf8 text := by
  simp [ByteArray.toList, toList_loop_eq, utf8]

lemma length_utf8 (text : String) : (utf8 text).length = text.utf8ByteSize := by
  simp [utf8]

lemma arrayType_eq (text : String) :
    arrayType text = "[" ++ toString (utf8 text ++ [0]).length ++ " x i8]" := by
  rw [List.length_append, length_utf8, List.length_singleton, arrayType]

lemma globalLine_defines (i : Nat) (text : String) :
    DefinesConstant (globalLine i text) (globalName i text) (utf8 text ++ [0]) := by
  have hread := arrayBytes_join (utf8 text ++ [0])
  refine ⟨_, hread, ?_⟩
  rw [globalLine, toList_toUTF8, arrayType_eq]

/-! ### Whole modules -/

/-- The address of global `i` is that of the text, and is written with its type and name. -/
structure Refers (m : Module) (i : Nat) (text : String) : Prop where
  contents : m.globals[i]? = some text
  written : (Instr.address i).text m.globals =
    "bitcast " ++ ("[" ++ toString (utf8 text ++ [0]).length ++ " x i8]") ++ "* @" ++
      globalName i text ++ " to i8*"

lemma refers_of_getElem? {m : Module} {i : Nat} {text : String}
    (h : m.globals[i]? = some text) : Refers m i text := by
  have htext : m.globals.getD i "" = text := by
    rw [Array.getD_eq_getD_getElem?, h, Option.getD_some]
  refine ⟨h, ?_⟩
  change "bitcast " ++ arrayType (m.globals.getD i "") ++ "* @" ++
    globalName i (m.globals.getD i "") ++ " to i8*" = _
  rw [htext, arrayType_eq]

lemma Program.lower_extends {p : Program} {m : Module} (h : p.lower = .ok m) :
    Module.Extends ⟨#[], #[]⟩ m (p.body.flatMap Stmt.texts) := by
  obtain ⟨⟨u, m'⟩, hbody, hm⟩ := bind_eq_ok.mp h
  cases hm
  exact lowerStmts_requests p.body hbody

/-- The globals of a module are the texts that its program needs, each once and in the order of
first use. Each is a constant with the bytes of its text and a final zero, their names differ from
one another and from those of functions, and the addresses that `main` takes are, in order, those
of the texts that were asked for. -/
theorem lower_string_table (p : Program) (m : Module) (h : p.lower = .ok m) :
    let texts := p.body.flatMap Stmt.texts
    let names := m.globals.toList.mapIdx globalName
    m.globals.toList = texts.eraseDups ∧ m.globals.toList.Nodup ∧
    (∃ after, m.text = String.join (m.globals.toList.mapIdx globalLine) ++ after) ∧
    (∀ i text, m.globals[i]? = some text →
      DefinesConstant (globalLine i text) (globalName i text) (utf8 text ++ [0])) ∧
    names.Nodup ∧ (∀ name ∈ names, name ∉ functionNames) ∧
    List.Forall₂ (Refers m) (m.body.toList.filterMap Instr.address?) texts := by
  intro texts names
  have hextends := Program.lower_extends h
  have hglobals : m.globals.toList = texts.eraseDups := hextends.shared [] rfl
  refine ⟨hglobals, hglobals ▸ nodup_eraseDups texts, ?_, ?_, nodup_globalNames _, ?_, ?_⟩
  · simp only [Module.text, String.append_assoc]
    exact ⟨_, rfl⟩
  · exact fun i text _ => globalLine_defines i text
  · intro name hname
    obtain ⟨i, hi, rfl⟩ := List.mem_mapIdx.mp hname
    exact globalName_notMem i _
  · obtain ⟨more, hbody, hids⟩ := hextends.addressed
    rw [← List.forall₂_eq_eq_eq, List.forall₂_map_left_iff, List.forall₂_map_right_iff] at hids
    rw [hbody, List.nil_append]
    refine hids.imp fun i text hi => refers_of_getElem? ?_
    rw [← Array.getElem?_toList]
    exact hi

/-- Two greetings whose texts have one hash. -/
theorem lower_string_table_of_equal_hashes :
    let p : Program := ⟨default, [.greet default "b3Xu", .greet default "0jaa"]⟩
    Ir.hash "hi b3Xu" = Ir.hash "hi 0jaa" ∧
    ∃ m, p.lower = .ok m ∧ m.globals.toList = ["hi b3Xu", "%s\n", "hi 0jaa"] ∧
      (m.globals.toList.mapIdx globalName).Nodup ∧
      List.Forall₂ (Refers m) (m.body.toList.filterMap Instr.address?)
        ["hi b3Xu", "%s\n", "hi 0jaa", "%s\n"] := by
  intro p
  have hlower : p.lower = .ok ⟨#["hi b3Xu", "%s\n", "hi 0jaa"],
      #[.address 0, .address 1, .printText (.result 1) (.result 0),
        .address 2, .address 1, .printText (.result 4) (.result 3)]⟩ := by
    decide +kernel
  obtain ⟨-, -, -, -, hnames, -, hrefers⟩ := lower_string_table p _ hlower
  exact ⟨by decide +kernel, _, hlower, rfl, hnames, hrefers⟩

end HiToolchain
